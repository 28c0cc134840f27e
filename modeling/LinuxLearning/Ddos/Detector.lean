/-
  LinuxLearning.Ddos.Detector

  `ddos_detect` of `tcp_from_king.c`: three arrays with the values of the
  last packets, and, once they are filled, a decision at every packet.

  `double` is a parameter: which decision is taken depends on it, when one is
  taken and about which packets does not.  A decision for an attack ends the
  process, so `flag` is never set when the next packet comes.
-/

import Mathlib.Algebra.Order.BigOperators.Group.List
import Mathlib.Data.List.FinRange
import LinuxLearning.Ddos.BitCount
import LinuxLearning.Lib.SlidingWindow
import LinuxLearning.Lib.Transition

namespace LinuxLearning.Ddos

open Lib Ustack

/-! ## The code -/

/-- What the code uses of `double` and of `log2`. -/
class CDouble (δ : Type) extends Neg δ, Add δ, Sub δ, Mul δ where
  log2 : δ → δ
  /-- `<` -/
  lt : δ → δ → Bool
  ofUint32 : BitVec 32 → δ

open CDouble

/-- `double` itself. -/
instance : CDouble Float where
  log2 := Float.log2
  lt a b := decide (a < b)
  ofUint32 w := Float.ofNat w.toNat

def CAPTURE_WINDOWS : Nat := 256

theorem captureWindows_pos : 0 < CAPTURE_WINDOWS := by decide

/-- What is read of a `struct rte_mbuf`: the memory from
    `rte_pktmbuf_mtod` on, and `buf_len`. -/
structure RteMbuf where
  data : Ptr
  bufLen : BitVec 16

/-- `set_bits` -/
def RteMbuf.setBits (pkt : RteMbuf) : BitVec 32 :=
  (countBit pkt.data (pkt.bufLen.setWidth 32)).setBits

/-- `tot_bits` -/
def RteMbuf.totBits (pkt : RteMbuf) : BitVec 32 := pkt.bufLen.setWidth 32 * 8

variable {δ : Type} [CDouble δ]

/-- `tresh`, which is 1200.0. -/
def tresh : δ := ofUint32 1200

/-- `ddos_entropy` -/
def ddosEntropy (setBits totalBits : δ) : δ :=
  (-setBits) * (log2 setBits - log2 totalBits)
    - (totalBits - setBits) * (log2 (totalBits - setBits) - log2 totalBits)
    + log2 totalBits

/-- The value for `p_entropy`. -/
def RteMbuf.entropy (pkt : RteMbuf) : δ :=
  ddosEntropy (ofUint32 pkt.setBits) (ofUint32 pkt.totBits)

/-- The static variables. -/
structure Detector (δ : Type) where
  pSetbits : Fin CAPTURE_WINDOWS → BitVec 32
  pTotbits : Fin CAPTURE_WINDOWS → BitVec 32
  pEntropy : Fin CAPTURE_WINDOWS → δ
  pktIdx : Nat
  flag : Bool

/-- The sums of a decision. -/
structure Totals (δ : Type) where
  totalSet : BitVec 32
  totalBit : BitVec 32
  sumEntropy : δ

/-- The body of the loop over the slots. -/
def Detector.addSlot (d : Detector δ) (t : Totals δ) (i : Fin CAPTURE_WINDOWS) : Totals δ where
  totalSet := t.totalSet + d.pSetbits i
  totalBit := t.totalBit + d.pTotbits i
  sumEntropy := t.sumEntropy + d.pEntropy i

/-- The loop over the slots. -/
def Detector.totals (d : Detector δ) : Totals δ :=
  (List.finRange CAPTURE_WINDOWS).foldl d.addSlot
    { totalSet := 0, totalBit := 0, sumEntropy := ofUint32 0 }

/-- A decision: on which sums it was taken, and whether it ended the process. -/
structure Decision (δ : Type) where
  totals : Totals δ
  entropy : δ
  exits : Bool

/-- The stores of `ddos_detect`, to the slot of the packet. -/
def Detector.record (d : Detector δ) (pkt : RteMbuf) : Detector δ :=
  let slot := slotOf captureWindows_pos d.pktIdx
  { d with
    pSetbits := Function.update d.pSetbits slot pkt.setBits
    pTotbits := Function.update d.pTotbits slot pkt.totBits
    pEntropy := Function.update d.pEntropy slot pkt.entropy }

/-- `ddos_detect(pkt)`: the variables behind it, and the decision if one is
    taken. -/
def ddosDetect (d : Detector δ) (pkt : RteMbuf) : Detector δ × Option (Decision δ) :=
  let d := d.record pkt
  if d.pktIdx ≥ CAPTURE_WINDOWS then
    let totals := d.totals
    let entropy := ddosEntropy (ofUint32 totals.totalSet) (ofUint32 totals.totalBit)
    let attack := lt tresh (totals.sumEntropy - entropy)
    -- `rte_exit` comes before the index moves on
    if attack && !d.flag then (d, some { totals, entropy, exits := true })
    else
      ({ d with
         flag := attack
         pktIdx := (d.pktIdx + 1) % CAPTURE_WINDOWS + CAPTURE_WINDOWS },
        some { totals, entropy, exits := false })
  else ({ d with pktIdx := d.pktIdx + 1 }, none)

/-- The process, which `rte_exit` ends. -/
structure Process (δ : Type) where
  detector : Detector δ
  exited : Bool

/-- The variables as they are initialized. -/
def Process.start : Process δ where
  detector :=
    { pSetbits := fun _ => 0
      pTotbits := fun _ => 0
      pEntropy := fun _ => ofUint32 0
      pktIdx := 0
      flag := false }
  exited := false

/-- The next packet is processed, unless the process has ended. -/
def detectStep (p : Process δ) (pkt : RteMbuf) :
    Except Unit (Process δ × Option (Decision δ)) :=
  if p.exited then .error ()
  else
    let r := ddosDetect p.detector pkt
    .ok ({ detector := r.1, exited := r.2.any (·.exits) }, r.2)

/-! ## One packet -/

/-- The array holds the values of the last packets: each in the slot of its
    packet's number, each once, and zeros where nothing was written yet. -/
structure Window (slots : Fin CAPTURE_WINDOWS → BitVec 32) (value : RteMbuf → BitVec 32)
    (pkts : List RteMbuf) : Prop where
  holds : Holds captureWindows_pos slots 0 (pkts.map value)
  each_once : (List.ofFn slots).Perm ((lastOf CAPTURE_WINDOWS pkts).map value ++
    List.replicate (CAPTURE_WINDOWS - pkts.length) 0)

variable {slots : Fin CAPTURE_WINDOWS → BitVec 32} {value : RteMbuf → BitVec 32}
  {pkts : List RteMbuf} {pkt : RteMbuf} {p p' : Process δ} {o : Option (Decision δ)}

theorem window_of_holds (h : Holds captureWindows_pos slots 0 (pkts.map value)) :
    Window slots value pkts := by
  have hperm := h.perm
  rw [lastOf_map, List.length_map] at hperm
  exact ⟨h, hperm⟩

theorem Window.push (h : Window slots value pkts) (pkt : RteMbuf) {i : Nat}
    (hi : i % CAPTURE_WINDOWS = pkts.length % CAPTURE_WINDOWS) :
    Window (Function.update slots (slotOf captureWindows_pos i) (value pkt)) value
      (pkts ++ [pkt]) := by
  have hslot : slotOf captureWindows_pos i =
      slotOf captureWindows_pos (pkts.map value).length :=
    Fin.ext (by rw [List.length_map]; exact hi)
  have hpush := h.holds.push (value pkt)
  rw [← hslot] at hpush
  exact window_of_holds (by rw [List.map_append]; exact hpush)

/-- What holds when the process has taken in the packets `pkts`. -/
structure DetectorInv (pkts : List RteMbuf) (p : Process δ) : Prop where
  setbits : Window p.detector.pSetbits RteMbuf.setBits pkts
  totbits : Window p.detector.pTotbits RteMbuf.totBits pkts
  pktIdx : p.exited = false → p.detector.pktIdx = rebase CAPTURE_WINDOWS pkts.length
  pktIdx_lt : p.detector.pktIdx < 512

/-- The loop forms sums of words, modulo `2 ^ 32`. -/
theorem foldl_addSlot (d : Detector δ) (is : List (Fin CAPTURE_WINDOWS)) (t : Totals δ) :
    (is.foldl d.addSlot t).totalSet =
        t.totalSet + BitVec.ofNat 32 (is.map fun i => (d.pSetbits i).toNat).sum ∧
      (is.foldl d.addSlot t).totalBit =
        t.totalBit + BitVec.ofNat 32 (is.map fun i => (d.pTotbits i).toNat).sum := by
  induction is generalizing t with
  | nil => simp
  | cons i is ih =>
      obtain ⟨hset, hbit⟩ := ih (d.addSlot t i)
      rw [List.foldl_cons, hset, hbit]
      simp only [Detector.addSlot, List.map_cons, List.sum_cons, BitVec.ofNat_add,
        BitVec.ofNat_toNat, BitVec.setWidth_eq, BitVec.add_assoc, and_self]

/-- The two sums of bits do not depend on `double`. -/
theorem totals_eq (d : Detector δ) :
    d.totals.totalSet = BitVec.ofNat 32 ((List.ofFn d.pSetbits).map BitVec.toNat).sum ∧
      d.totals.totalBit = BitVec.ofNat 32 ((List.ofFn d.pTotbits).map BitVec.toNat).sum := by
  obtain ⟨hset, hbit⟩ := foldl_addSlot d (List.finRange CAPTURE_WINDOWS)
    { totalSet := 0, totalBit := 0, sumEntropy := ofUint32 0 }
  rw [List.ofFn_eq_map, List.ofFn_eq_map, List.map_map, List.map_map]
  exact ⟨hset.trans (BitVec.zero_add _), hbit.trans (BitVec.zero_add _)⟩

/-- The sum over a filled window is the sum over the last packets. -/
theorem Window.sum_eq (h : Window slots value pkts) (hfull : CAPTURE_WINDOWS ≤ pkts.length) :
    ((List.ofFn slots).map BitVec.toNat).sum =
      ((lastOf CAPTURE_WINDOWS pkts).map fun pkt => (value pkt).toNat).sum := by
  rw [(h.each_once.map BitVec.toNat).sum_eq, Nat.sub_eq_zero_of_le hfull, List.replicate_zero,
    List.append_nil, List.map_map]
  rfl

/-- What is reported for the packet `pkt` behind the packets `past`: a decision
    from the 257th packet on, taken on the sums over the last 256 packets. -/
structure Decided (past : List RteMbuf) (pkt : RteMbuf) (o : Option (Decision δ)) : Prop where
  isSome_iff : o.isSome = true ↔ CAPTURE_WINDOWS ≤ past.length
  totalSet : ∀ d ∈ o, d.totals.totalSet = BitVec.ofNat 32
    ((lastOf CAPTURE_WINDOWS (past ++ [pkt])).map fun pkt => pkt.setBits.toNat).sum
  totalBit : ∀ d ∈ o, d.totals.totalBit = BitVec.ofNat 32
    ((lastOf CAPTURE_WINDOWS (past ++ [pkt])).map fun pkt => pkt.totBits.toNat).sum

theorem detectorInv_start : DetectorInv [] (Process.start : Process δ) where
  setbits := window_of_holds (.start ..)
  totbits := window_of_holds (.start ..)
  pktIdx _ := rfl
  pktIdx_lt := show 0 < 512 by decide

/-- What `ddos_detect` can do: take no decision, take one and go on, or end
    the process with it. -/
theorem ddosDetect_cases (d : Detector δ) (pkt : RteMbuf) :
    (d.pktIdx < CAPTURE_WINDOWS ∧
        ddosDetect d pkt = ({ d.record pkt with pktIdx := d.pktIdx + 1 }, none)) ∨
      (CAPTURE_WINDOWS ≤ d.pktIdx ∧ ∃ dec : Decision δ, dec.totals = (d.record pkt).totals ∧
        (dec.exits = true ∧ ddosDetect d pkt = (d.record pkt, some dec) ∨
          dec.exits = false ∧ ∃ flag, ddosDetect d pkt =
            ({ d.record pkt with
               flag := flag
               pktIdx := (d.pktIdx + 1) % CAPTURE_WINDOWS + CAPTURE_WINDOWS }, some dec))) := by
  by_cases hfull : CAPTURE_WINDOWS ≤ d.pktIdx
  · refine .inr ⟨hfull, ?_⟩
    have hge : (d.record pkt).pktIdx ≥ CAPTURE_WINDOWS := hfull
    simp only [ddosDetect, if_pos hge]
    split
    · refine ⟨_, ?_, .inl ⟨?_, rfl⟩⟩ <;> dsimp only
    · refine ⟨_, ?_, .inr ⟨?_, _, rfl⟩⟩ <;> dsimp only
  · have hlt : ¬ (d.record pkt).pktIdx ≥ CAPTURE_WINDOWS := hfull
    refine .inl ⟨Nat.not_le.mp hfull, ?_⟩
    simp only [ddosDetect, if_neg hlt]
    rfl

/-- A decision on the sums over filled arrays. -/
theorem decided_some {d : Detector δ} {dec : Decision δ}
    (hset : Window d.pSetbits RteMbuf.setBits (pkts ++ [pkt]))
    (htot : Window d.pTotbits RteMbuf.totBits (pkts ++ [pkt]))
    (hfull : CAPTURE_WINDOWS ≤ pkts.length) (htotals : dec.totals = d.totals) :
    Decided pkts pkt (some dec) := by
  have hfull' : CAPTURE_WINDOWS ≤ (pkts ++ [pkt]).length := by
    rw [List.length_append]
    exact Nat.le_add_right_of_le hfull
  refine ⟨iff_of_true rfl hfull, ?_, ?_⟩
  · rintro _ ⟨⟩
    rw [htotals, (totals_eq d).1, hset.sum_eq hfull']
  · rintro _ ⟨⟩
    rw [htotals, (totals_eq d).2, htot.sum_eq hfull']

/-- One packet: its values come to the slot of its number, whether the arrays
    are still being filled or the oldest values go. -/
theorem DetectorInv.step (h : DetectorInv pkts p) (hstep : detectStep p pkt = .ok (p', o)) :
    DetectorInv (pkts ++ [pkt]) p' ∧ Decided pkts pkt o := by
  unfold detectStep at hstep
  split at hstep
  · cases hstep
  · rename_i hrunning
    obtain ⟨rfl, rfl⟩ := Prod.mk.inj (Except.ok.inj hstep)
    have hidx := h.pktIdx (by simpa using hrunning)
    have hslot : p.detector.pktIdx % CAPTURE_WINDOWS = pkts.length % CAPTURE_WINDOWS := by
      rw [hidx, rebase_mod]
    have hfilled : CAPTURE_WINDOWS ≤ p.detector.pktIdx ↔ CAPTURE_WINDOWS ≤ pkts.length := by
      rw [hidx, le_rebase_iff]
    have hset := h.setbits.push pkt hslot
    have htot := h.totbits.push pkt hslot
    -- the index that belongs to one packet more, and its bound
    have hlen : (pkts ++ [pkt]).length = pkts.length + 1 := List.length_append
    have hnext := rebase_succ pkts.length captureWindows_pos
    have hlt := rebase_lt (pkts.length + 1) captureWindows_pos
    rw [← hidx] at hnext
    rw [hnext] at hlt
    rw [← hlen] at hnext
    rcases ddosDetect_cases p.detector pkt with
      ⟨hopen, heq⟩ | ⟨hfull, dec, htotals, ⟨hexits, heq⟩ | ⟨hexits, flag, heq⟩⟩
    · -- the arrays are still being filled, and nothing is decided
      rw [if_neg (Nat.not_le.mpr hopen)] at hnext hlt
      rw [heq]
      have hfew : ¬ CAPTURE_WINDOWS ≤ pkts.length := hfilled.not.mp (Nat.not_le.mpr hopen)
      exact ⟨⟨hset, htot, fun _ => hnext.symm, hlt⟩,
        ⟨iff_of_false (by simp) hfew, by rintro _ ⟨⟩, by rintro _ ⟨⟩⟩⟩
    · -- the process ends with the index where it was
      rw [heq]
      exact ⟨⟨hset, htot, fun hgoes => absurd (hexits.symm.trans hgoes) (by decide), h.pktIdx_lt⟩,
        decided_some hset htot (hfilled.mp hfull) htotals⟩
    · -- the index is set back to its place behind 256
      rw [if_pos hfull] at hnext hlt
      rw [heq]
      exact ⟨⟨hset, htot, fun _ => hnext.symm, hlt⟩,
        decided_some hset htot (hfilled.mp hfull) htotals⟩

/-! ## All packets -/

/-- The packets of a run. -/
def packets (hist : List (RteMbuf × Option (Decision δ))) : List RteMbuf := hist.map Prod.fst

variable {hist : List (RteMbuf × Option (Decision δ))}

theorem detectorInv_of_run (hrun : Run (StepsOf detectStep) (.start : Process δ) hist p) :
    DetectorInv (packets hist) p ∧
      AtEveryEntry (fun past en => Decided (packets past) en.1 en.2) hist := by
  induction hrun with
  | start => exact ⟨detectorInv_start, atEveryEntry_nil _⟩
  | step _ hstep ih =>
      obtain ⟨hinv, hdecided⟩ := ih.1.step hstep
      rw [packets, List.map_append]
      exact ⟨hinv, atEveryEntry_snoc.mpr ⟨ih.2, hdecided⟩⟩

/-! ## Sums that fit -/

/-- Of a buffer of whole words the two values are what they are meant to be. -/
theorem toNat_values (h : WholeWords pkt.bufLen.toNat) :
    pkt.setBits.toNat = oneBits pkt.data pkt.bufLen.toNat ∧
      pkt.totBits.toNat = 8 * pkt.bufLen.toNat := by
  have hlen := pkt.bufLen.isLt
  have hwidth : (pkt.bufLen.setWidth 32).toNat = pkt.bufLen.toNat :=
    BitVec.toNat_setWidth_of_le (by decide)
  constructor
  · rw [RteMbuf.setBits, toNat_setBits _ (by rwa [hwidth]) (by omega), hwidth]
  · have height : (8 : BitVec 32).toNat = 8 := rfl
    rw [RteMbuf.totBits, BitVec.toNat_mul, hwidth, height, Nat.mod_eq_of_lt (by omega),
      Nat.mul_comm]

theorem setBits_le (h : WholeWords pkt.bufLen.toNat) :
    pkt.setBits.toNat ≤ pkt.totBits.toNat ∧ pkt.totBits.toNat < 2 ^ 19 := by
  obtain ⟨hset, htot⟩ := toNat_values h
  have hlen := pkt.bufLen.isLt
  rw [hset, htot]
  exact ⟨oneBits_le .., by omega⟩

/-- No partial sum of the loop runs over. -/
def NoOverflow (slots : Fin CAPTURE_WINDOWS → BitVec 32) : Prop :=
  ∀ k, (((List.ofFn slots).take k).map BitVec.toNat).sum < 2 ^ 32

/-- Up to 256 values below `2 ^ 19`. -/
theorem sum_lt {ns : List Nat} (hlen : ns.length ≤ CAPTURE_WINDOWS) (hlt : ∀ n ∈ ns, n < 2 ^ 19) :
    ns.sum < 2 ^ 32 := by
  have hsum := List.sum_le_card_nsmul ns (2 ^ 19) fun n hn => Nat.le_of_lt (hlt n hn)
  have hmul := Nat.mul_le_mul_right (2 ^ 19) hlen
  rw [Nat.nsmul_eq_mul] at hsum
  exact Nat.lt_of_le_of_lt (hsum.trans hmul) (by decide)

theorem Window.noOverflow (h : Window slots value pkts)
    (hlt : ∀ pkt ∈ pkts, (value pkt).toNat < 2 ^ 19) : NoOverflow slots := by
  intro k
  refine sum_lt (by simp) fun n hn => ?_
  obtain ⟨v, hv, rfl⟩ := List.mem_map.mp hn
  obtain ⟨i, rfl⟩ := List.mem_ofFn.mp (List.mem_of_mem_take hv)
  rcases h.holds.mem_or_eq_blank i with hmem | hblank
  · obtain ⟨pkt, hpkt, hval⟩ := List.mem_map.mp hmem
    rw [← hval]
    exact hlt pkt hpkt
  · -- nothing was written to this slot yet
    rw [hblank]
    decide

/-- The sums of a decision are the sums of the numbers of bits, not only
    modulo `2 ^ 32`. -/
structure ExactSums (past : List RteMbuf) (pkt : RteMbuf) (o : Option (Decision δ)) : Prop where
  totalSet : ∀ d ∈ o, d.totals.totalSet.toNat = ((lastOf CAPTURE_WINDOWS (past ++ [pkt])).map
    fun pkt => oneBits pkt.data pkt.bufLen.toNat).sum
  totalBit : ∀ d ∈ o, d.totals.totalBit.toNat = ((lastOf CAPTURE_WINDOWS (past ++ [pkt])).map
    fun pkt => 8 * pkt.bufLen.toNat).sum
  le : ∀ d ∈ o, d.totals.totalSet ≤ d.totals.totalBit

/-- The `uint32_t` sum of such values is their sum. -/
theorem toNat_sum_eq {qs : List RteMbuf} (hlen : qs.length ≤ CAPTURE_WINDOWS)
    (hlt : ∀ q ∈ qs, (value q).toNat < 2 ^ 19) :
    (BitVec.ofNat 32 (qs.map fun q => (value q).toNat).sum).toNat =
      (qs.map fun q => (value q).toNat).sum := by
  rw [BitVec.toNat_ofNat]
  refine Nat.mod_eq_of_lt (sum_lt (by rwa [List.length_map]) fun n hn => ?_)
  obtain ⟨q, hq, rfl⟩ := List.mem_map.mp hn
  exact hlt q hq

omit [CDouble δ] in
theorem Decided.exactSums (h : Decided pkts pkt o)
    (hwhole : ∀ q ∈ pkts ++ [pkt], WholeWords q.bufLen.toNat) : ExactSums pkts pkt o := by
  have hlast : ∀ q ∈ lastOf CAPTURE_WINDOWS (pkts ++ [pkt]), WholeWords q.bufLen.toNat :=
    fun q hq => hwhole q (mem_of_mem_lastOf hq)
  have hlen : (lastOf CAPTURE_WINDOWS (pkts ++ [pkt])).length ≤ CAPTURE_WINDOWS := by
    rw [length_lastOf]
    exact Nat.min_le_left ..
  have hset := toNat_sum_eq hlen fun q hq =>
    Nat.lt_of_le_of_lt (setBits_le (hlast q hq)).1 (setBits_le (hlast q hq)).2
  have htot := toNat_sum_eq hlen fun q hq => (setBits_le (hlast q hq)).2
  refine ⟨fun d hd => ?_, fun d hd => ?_, fun d hd => ?_⟩
  · rw [h.totalSet d hd, hset, List.map_congr_left fun q hq => (toNat_values (hlast q hq)).1]
  · rw [h.totalBit d hd, htot, List.map_congr_left fun q hq => (toNat_values (hlast q hq)).2]
  · -- packet by packet, since neither sum ran over
    rw [BitVec.le_def, h.totalSet d hd, h.totalBit d hd, hset, htot]
    exact List.sum_le_sum fun q hq => (setBits_le (hlast q hq)).1

/-- In every run the arrays hold the values of the last packets, the packets
    behind the first 256 are decided on, on the sums over the last 256, and
    the index stays below 512.  Where every buffer consists of whole words, no
    sum runs over, and there are never more one bits than bits. -/
theorem ddos_window (hrun : Run (StepsOf detectStep) (.start : Process δ) hist p) :
    Window p.detector.pSetbits RteMbuf.setBits (packets hist) ∧
      Window p.detector.pTotbits RteMbuf.totBits (packets hist) ∧
      AtEveryEntry (fun past en => Decided (packets past) en.1 en.2) hist ∧
      p.detector.pktIdx < 512 ∧
      ((∀ pkt ∈ packets hist, WholeWords pkt.bufLen.toNat) →
        NoOverflow p.detector.pSetbits ∧ NoOverflow p.detector.pTotbits ∧
          AtEveryEntry (fun past en => ExactSums (packets past) en.1 en.2) hist) := by
  obtain ⟨hinv, hdecided⟩ := detectorInv_of_run hrun
  refine ⟨hinv.setbits, hinv.totbits, hdecided, hinv.pktIdx_lt, fun hwhole => ⟨?_, ?_, ?_⟩⟩
  · exact hinv.setbits.noOverflow fun pkt hpkt =>
      Nat.lt_of_le_of_lt (setBits_le (hwhole pkt hpkt)).1 (setBits_le (hwhole pkt hpkt)).2
  · exact hinv.totbits.noOverflow fun pkt hpkt => (setBits_le (hwhole pkt hpkt)).2
  · rintro pre en post rfl
    refine (hdecided pre en post rfl).exactSums fun q hq => hwhole q ?_
    simp only [packets, List.map_append, List.map_cons, List.mem_append, List.mem_cons,
      List.not_mem_nil, or_false] at hq ⊢
    exact hq.imp_right .inl

/-- Where no comparison finds an attack, all packets are processed. -/
theorem exists_run (hcalm : ∀ a : δ, lt tresh a = false) (pkts : List RteMbuf) :
    ∃ hist, ∃ p : Process δ, Run (StepsOf detectStep) .start hist p ∧ packets hist = pkts ∧
      p.exited = false := by
  induction pkts using List.reverseRecOn with
  | nil => exact ⟨[], .start, .start, rfl, rfl⟩
  | append_singleton pkts pkt ih =>
      obtain ⟨hist, p, hrun, hpkts, hrunning⟩ := ih
      have hstep : detectStep p pkt = .ok
          ({ detector := (ddosDetect p.detector pkt).1, exited := false },
            (ddosDetect p.detector pkt).2) := by
        rw [detectStep, if_neg (by simp [hrunning]), ddosDetect]
        simp only [hcalm, Bool.false_and, Bool.false_eq_true, if_false]
        split <;> rfl
      exact ⟨_, _, hrun.step hstep, by rw [packets, List.map_append, ← hpkts]; rfl, rfl⟩

/-- Numbers that are all NaN: of packets full of ones the entropy is. -/
instance : CDouble Unit where
  neg _ := ()
  add _ _ := ()
  sub _ _ := ()
  mul _ _ := ()
  log2 _ := ()
  lt _ _ := false
  ofUint32 _ := ()

/-- A decision is taken on the last of 257 packets full of ones. -/
theorem ddos_window_ones :
    ∃ hist, ∃ p : Process Unit, Run (StepsOf detectStep) .start hist p ∧
      packets hist = List.replicate 257 { data := fun _ => 255, bufLen := 8 } ∧
      Window p.detector.pSetbits RteMbuf.setBits (packets hist) ∧
      NoOverflow p.detector.pSetbits ∧
      AtEveryEntry (fun past en => ExactSums (packets past) en.1 en.2) hist := by
  obtain ⟨hist, p, hrun, hpkts, -⟩ := @exists_run Unit _ (fun _ => rfl)
    (List.replicate 257 { data := fun _ => 255, bufLen := 8 })
  obtain ⟨hset, -, -, -, hfit⟩ := ddos_window hrun
  obtain ⟨hover, -, hexact⟩ := hfit fun pkt hpkt => by
    rw [hpkts] at hpkt
    rw [List.eq_of_mem_replicate hpkt]
    exact ⟨by decide, by decide⟩
  exact ⟨hist, p, hrun, hpkts, hset, hover, hexact⟩

end LinuxLearning.Ddos
