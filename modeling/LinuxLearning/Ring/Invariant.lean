/-
  LinuxLearning.Ring.Invariant

  Every access keeps the invariant.  Accesses fall into four kinds: those that
  only read, the move of a head, the store into a slot, and the move of a
  tail.  For the threads that do not move, `PcOk.frame` says what may change
  around them.
-/

import LinuxLearning.Ring.Positions

namespace LinuxLearning.Ring

open Lib

variable {τ α : Type} {k cap a : Nat} {r r' : RteRing α} {m m' : Marks α} {pc pc' : Pc α}
  {c : Call α} {l : Locals} {sd : Side}

/-! ## Small facts about the definitions -/

@[simp] theorem ht_setHead_head (r : RteRing α) (sd sd' : Side) (v : BitVec 32) :
    ((r.setHead sd v).ht sd').head = if sd' = sd then v else (r.ht sd').head := by
  cases sd <;> cases sd' <;> rfl

@[simp] theorem ht_setHead_tail (r : RteRing α) (sd sd' : Side) (v : BitVec 32) :
    ((r.setHead sd v).ht sd').tail = (r.ht sd').tail := by
  cases sd <;> cases sd' <;> rfl

@[simp] theorem ht_setTail_tail (r : RteRing α) (sd sd' : Side) (v : BitVec 32) :
    ((r.setTail sd v).ht sd').tail = if sd' = sd then v else (r.ht sd').tail := by
  cases sd <;> cases sd' <;> rfl

@[simp] theorem ht_setTail_head (r : RteRing α) (sd sd' : Side) (v : BitVec 32) :
    ((r.setTail sd v).ht sd').head = (r.ht sd').head := by
  cases sd <;> cases sd' <;> rfl

@[simp] theorem ht_setSlot (r : RteRing α) (i : Nat) (x : α) (sd : Side) :
    (r.setSlot i x).ht sd = r.ht sd := by
  cases sd <;> rfl

@[simp] theorem slots_setHead (r : RteRing α) (sd : Side) (v : BitVec 32) :
    (r.setHead sd v).slots = r.slots := by
  cases sd <;> rfl

@[simp] theorem slots_setTail (r : RteRing α) (sd : Side) (v : BitVec 32) :
    (r.setTail sd v).slots = r.slots := by
  cases sd <;> rfl

@[simp] theorem capacity_setHead (r : RteRing α) (sd : Side) (v : BitVec 32) :
    (r.setHead sd v).capacity = r.capacity := by
  cases sd <;> rfl

@[simp] theorem capacity_setTail (r : RteRing α) (sd : Side) (v : BitVec 32) :
    (r.setTail sd v).capacity = r.capacity := by
  cases sd <;> rfl

theorem RteRing.Sound.setHead (h : r.Sound k) (sd : Side) (v : BitVec 32) :
    (r.setHead sd v).Sound k := by
  cases sd <;> exact ⟨h.le, h.size, h.mask, h.capacity, h.slots⟩

theorem RteRing.Sound.setTail (h : r.Sound k) (sd : Side) (v : BitVec 32) :
    (r.setTail sd v).Sound k := by
  cases sd <;> exact ⟨h.le, h.size, h.mask, h.capacity, h.slots⟩

theorem RteRing.Sound.setSlot (h : r.Sound k) (i : Nat) (x : α) : (r.setSlot i x).Sound k :=
  ⟨h.le, h.size, h.mask, h.capacity, by rw [RteRing.setSlot, List.length_set, h.slots]⟩

theorem grant_le (b : QueueBehavior) (n entries : BitVec 32) :
    (grant b n entries).toNat ≤ n.toNat ∧ (grant b n entries).toNat ≤ entries.toNat := by
  unfold grant
  split
  · rename_i hlt
    rw [BitVec.lt_def] at hlt
    cases b
    · simp
    · exact ⟨show entries.toNat ≤ n.toNat by omega, Nat.le_refl _⟩
  · rename_i hlt
    rw [BitVec.lt_def] at hlt
    exact ⟨Nat.le_refl _, by omega⟩

theorem toNat_pos {n : BitVec 32} (h : n ≠ 0) : 0 < n.toNat := by
  rcases Nat.eq_zero_or_pos n.toNat with hzero | hpos
  · exact absurd (BitVec.eq_of_toNat_eq hzero) h
  · exact hpos

theorem Call.n_of_fits (h : c.Fits) (hside : c.side = .prod) : c.n.toNat = c.objs.length := by
  cases c with
  | enqueue objTable b sp => exact Nat.mod_eq_of_lt h
  | dequeue n b sc => cases hside

theorem Call.objs_of_cons (hside : c.side = .cons) : c.objs = [] := by
  cases c with
  | enqueue objTable b sp => cases hside
  | dequeue n b sc => rfl

theorem Claimed.n_le (h : Claimed cap m a c l) :
    l.n.toNat ≤ c.n.toNat ∧ l.n.toNat ≤ l.entries.toNat := by
  rw [h.granted]
  exact grant_le _ _ _

theorem ticket_copy (c : Call α) (l : Locals) (i : Nat) (table : List (Option α)) :
    (Pc.copy c l i table).ticket a c.side = some (a, l.n.toNat) := if_pos rfl

theorem ticket_storeTail (c : Call α) (l : Locals) (table : List (Option α)) :
    (Pc.storeTail c l table).ticket a c.side = some (a, l.n.toNat) := if_pos rfl

/-- Only a call under way holds positions, on its own side and from where it
    read the head. -/
theorem call_of_ticket {b n : Nat} (h : pc.ticket a sd = some (b, n)) :
    b = a ∧ ∃ c ∈ pc.call?, c.side = sd := by
  cases pc with
  | copy c l i table | storeTail c l table =>
      simp only [Pc.ticket] at h
      split at h
      · rename_i hside
        obtain ⟨rfl, -⟩ : a = b ∧ l.n.toNat = n := by simpa using h
        exact ⟨rfl, c, rfl, hside⟩
      · cases h
  | idle | loadHead c | loadTail c oldHead | moveHead c l | finish res => cases h

theorem Stored.mono {lo hi lo' hi' : Nat} {puts : List α} (h : Stored k r puts lo hi)
    (hlo : lo ≤ lo') (hhi : hi' ≤ hi) : Stored k r puts lo' hi' :=
  fun q hq hq' => h q (by omega) (by omega)

theorem Stored.congr {lo hi : Nat} {puts puts' : List α} (h : Stored k r puts lo hi)
    (hslots : ∀ q, lo ≤ q → q < hi → r'.slots[q % 2 ^ k]? = r.slots[q % 2 ^ k]?)
    (hputs : ∀ q, lo ≤ q → q < hi → puts'[q]? = puts[q]?) : Stored k r' puts' lo hi :=
  fun q hq hq' => by rw [hslots q hq hq', hputs q hq hq', h q hq hq']

/-! ## The threads that do not move -/

/-- What a thread knows stays true while the marks only grow and its own
    block and slots are left alone. -/
theorem PcOk.frame (h : PcOk k cap m r a pc) (hhead : ∀ sd, m.head sd ≤ m'.head sd)
    (hreach : ∀ sd, m.reach cap sd ≤ m'.reach cap sd)
    (hputs : ∀ sd n q, pc.ticket a sd = some (a, n) → q < a + n → m'.puts[q]? = m.puts[q]?)
    (hsingle : ∀ c ∈ pc.call?, c.single = true → m'.head c.side = m.head c.side)
    (htail : ∀ sd n, pc.ticket a sd = some (m.tail sd, n) → m'.tail sd = m.tail sd)
    (hslots : ∀ n q, pc.ticket a .prod = some (a, n) → a ≤ q → q < a + n →
      r'.slots[q % 2 ^ k]? = r.slots[q % 2 ^ k]?) : PcOk k cap m' r' a pc := by
  have hloaded : ∀ {c v}, c ∈ pc.call? → Loaded m a c v → Loaded m' a c v := fun hc hl =>
    ⟨hl.fits, hl.oldHead, Nat.le_trans hl.le (hhead _), fun hs => by
      rw [hsingle _ hc hs]
      exact hl.single hs⟩
  have hclaimed : ∀ {c l}, pc.ticket a c.side = some (a, l.n.toNat) → Claimed cap m a c l →
      Claimed cap m' a c l := fun ht hcl =>
    ⟨hcl.fits, hcl.oldHead, hcl.granted, hcl.nonzero, Nat.le_trans hcl.room (hreach _),
      fun hside i hi => by rw [hputs _ _ _ ht (by omega), hcl.objs hside i hi]⟩
  have hcopied : ∀ {c : Call α} {n i : Nat} {table}, pc.ticket a c.side = some (a, n) → i ≤ n →
      Copied k m r a i table c → Copied k m' r' a i table c := by
    intro c n i table ht hi hcop
    cases c with
    | enqueue objTable b sp =>
        refine ⟨hcop.1, hcop.2.congr (fun q hq hq' => hslots n q ht hq (by omega))
          fun q _ hq' => hputs _ _ _ ht (by omega)⟩
    | dequeue n' b sc =>
        have heq : (m'.puts.drop a).take i = (m.puts.drop a).take i := by
          apply List.ext_getElem?
          intro j
          rw [List.getElem?_take, List.getElem?_take]
          split
          · rw [List.getElem?_drop, List.getElem?_drop, hputs _ _ _ ht (by omega)]
          · rfl
        exact hcop.trans (by rw [heq])
  cases pc with
  | idle | loadHead c | finish res => exact h
  | loadTail c oldHead => exact hloaded rfl h
  | moveHead c l =>
      obtain ⟨hl, hgrant, hne, hroom⟩ := h
      refine ⟨hloaded rfl hl, hgrant, hne, fun heq => ?_⟩
      have hle := hl.le
      have hmono := hhead c.side
      exact Nat.le_trans (hroom (by omega)) (hreach _)
  | copy c l i table =>
      obtain ⟨hcl, hi, hcop⟩ := h
      exact ⟨hclaimed (ticket_copy ..) hcl, hi, hcopied (ticket_copy ..) hi hcop⟩
  | storeTail c l table =>
      obtain ⟨hcl, ht, hcop⟩ := h
      refine ⟨hclaimed (ticket_storeTail ..) hcl, ?_, hcopied (ticket_storeTail ..)
        (Nat.le_refl _) hcop⟩
      rw [htail _ _ (by rw [ht]; exact ticket_storeTail ..), ht]

/-! ## Facts about every state -/

namespace Inv

variable {p : Positions τ α} {s : State τ α} {t u : τ} {n : Nat}

/-- The marks in their order. -/
theorem order (h : Inv k cap p s) : p.tail .cons ≤ p.head .cons ∧ p.head .cons ≤ p.tail .prod ∧
    p.tail .prod ≤ p.head .prod ∧ p.head .prod ≤ p.tail .cons + cap :=
  ⟨(h.tickets .cons).le, h.room .cons, (h.tickets .prod).le, h.room .prod⟩

theorem cap_lt (h : Inv k cap p s) : cap < 2 ^ k ∧ 2 ^ k ≤ 2 ^ 31 :=
  ⟨h.capacity ▸ h.sound.capacity, Nat.pow_le_pow_right (by decide) h.sound.le⟩

theorem reach_le (h : Inv k cap p s) (sd : Side) : p.reach cap sd ≤ p.head sd + cap := by
  obtain ⟨h₁, h₂, h₃, h₄⟩ := h.order
  cases sd with
  | prod => exact show p.tail .cons + cap ≤ p.head .prod + cap by omega
  | cons => exact show p.tail .prod ≤ p.head .cons + cap by omega

/-- What a call computes from the other side's tail. -/
theorem entries_eq (h : Inv k cap p s) (ha : a ≤ p.head sd) :
    s.ring.entries sd (counter 32 a) = counter 32 (p.reach cap sd - a) := by
  have hroom := h.room sd
  cases sd with
  | prod =>
      have hcap : s.ring.capacity = counter 32 cap := by
        rw [← h.capacity, counter, BitVec.ofNat_toNat, BitVec.setWidth_eq]
      have hsum : s.ring.capacity + s.ring.cons.tail = counter 32 (p.reach cap .prod) := by
        rw [hcap, show s.ring.cons.tail = counter 32 (p.tail .cons) from h.tail .cons, counter_add,
          Nat.add_comm]
        rfl
      rw [RteRing.entries, hsum, counter_sub (Nat.le_trans ha hroom)]
  | cons =>
      rw [RteRing.entries, show s.ring.prod.tail = counter 32 (p.tail .prod) from h.tail .prod]
      exact counter_sub (Nat.le_trans ha hroom)

/-- The number is right if the indexes have not gone around. -/
theorem toNat_entries (h : Inv k cap p s) (ha : a ≤ p.head sd)
    (hlap : p.head sd + cap < a + 2 ^ 32) :
    (s.ring.entries sd (counter 32 a)).toNat = p.reach cap sd - a := by
  have hreach := h.reach_le sd
  rw [h.entries_eq ha, toNat_counter (by omega)]

/-- Blocks lie below the head of their side, and below the objects put. -/
theorem ticket_le (h : Inv k cap p s) (ht : (s.pc t).ticket (p.seen t) sd = some (a, n)) :
    a + n ≤ p.puts.length := by
  obtain ⟨h₁, h₂, h₃, h₄⟩ := h.order
  have hin := ((h.tickets sd).within ht).2.2
  have hputs := h.puts
  cases sd with
  | prod => omega
  | cons => omega

/-- Another thread does not hold the lowest block too. -/
theorem lowest_unique (h : Inv k cap p s) {m : Nat} (htu : t ≠ u)
    (ht : (s.pc t).ticket (p.seen t) sd = some (a, n))
    (hu : (s.pc u).ticket (p.seen u) sd = some (a, m)) : False := by
  have hpos := ((h.tickets sd).within ht).2.1
  have hpos' := ((h.tickets sd).within hu).2.1
  have := (h.tickets sd).apart htu ht hu
  omega

/-- Nobody else is in a call on the side of a single caller. -/
theorem single_alone (h : Inv k cap p s) {d : Call α} (htu : t ≠ u) (hc : c ∈ (s.pc t).call?)
    (hd : d ∈ (s.pc u).call?) (hsingle : c.single = true) : d.side ≠ c.side := by
  intro hside
  have := (h.alone t u htu c hc d hd hside.symm).1
  rw [hsingle] at this
  cases this

/-- A thread that goes on with a call keeps the others away as before. -/
theorem compatible_of_call (h : Inv k cap p s) (hc : ∀ c ∈ pc'.call?, c ∈ (s.pc t).call?) :
    ∀ c ∈ pc'.call?, ∀ u, u ≠ t → ∀ d ∈ (s.pc u).call?, c.Compatible d :=
  fun c hmem u hu d hd => h.alone t u hu.symm c (hc c hmem) d hd

/-- A call that may move the head finds it where it read it. -/
theorem at_head (h : Inv k cap p s) (hpc : s.pc t = .moveHead c l)
    (hmove : c.single = true ∨ (s.ring.ht c.side).head = l.oldHead)
    (hlap : p.head c.side + cap < p.seen t + 2 ^ 32) : p.seen t = p.head c.side := by
  have hok := h.thread t
  rw [hpc] at hok
  obtain ⟨hloaded, -⟩ := hok
  rcases hmove with hsingle | heq
  · exact hloaded.single hsingle
  · rw [h.head, hloaded.oldHead] at heq
    exact eq_of_counter_eq hloaded.le (by omega) heq.symm

/-- The slots of different positions in use are different. -/
theorem slot_ne (h : Inv k cap p s) {q q' : Nat} (hne : q ≠ q') (hq : p.tail .cons ≤ q)
    (hq' : q < p.head .prod) (hlo : p.tail .cons ≤ q') (hhi : q' < p.head .prod) :
    q % 2 ^ k ≠ q' % 2 ^ k := by
  have hcap := h.cap_lt.1
  have hroom := h.order.2.2.2
  exact mod_ne_of_window hne (by omega) (by omega)

/-- The index that the copy loop has come to is that of the next position of
    the block. -/
theorem copy_index (h : Inv k cap p s) {i : Nat} {table : List (Option α)}
    (hpc : s.pc t = .copy c l i table) :
    (s.ring.ptrIndexes l.oldHead l.n)[i]? =
      if i < l.n.toNat then some ((p.seen t + i) % 2 ^ k) else none := by
  have hok := h.thread t
  rw [hpc] at hok
  have hin := (h.tickets c.side).within (t := t) (by rw [hpc]; exact ticket_copy ..)
  have hroom := h.room c.side
  have hreach := h.reach_le c.side
  obtain ⟨h₁, h₂, h₃, h₄⟩ := h.order
  have hcap := h.cap_lt.1
  rw [hok.1.oldHead]
  refine getElem?_ptrIndexes h.sound ?_ i
  cases hside : c.side <;> rw [hside] at hin <;> omega

end Inv

/-! ## The four kinds of access -/

namespace Inv

variable [DecidableEq τ] {p : Positions τ α} {s : State τ α} {t u : τ} {a' : Nat}

/-- The invariant around a thread that moves from one place to another. -/
theorem rebuild (h : Inv k cap p s) (t : τ) (pc' : Pc α) (a' : Nat) (r' : RteRing α)
    (m' : Marks α) (hsound : r'.Sound k) (hcap : r'.capacity.toNat = cap)
    (hhead : ∀ sd, (r'.ht sd).head = counter 32 (m'.head sd))
    (htail : ∀ sd, (r'.ht sd).tail = counter 32 (m'.tail sd))
    (hroom : ∀ sd, m'.head sd ≤ m'.reach cap sd) (hputs : m'.puts.length = m'.head .prod)
    (htickets : ∀ sd (held : τ → Option Ticket), held t = pc'.ticket a' sd →
      (∀ u, u ≠ t → held u = (s.pc u).ticket (p.seen u) sd) →
      Tickets (m'.tail sd) (m'.head sd) held)
    (hpub : Stored k r' m'.puts (m'.tail .cons) (m'.tail .prod))
    (hok : PcOk k cap m' r' a' pc')
    (hother : ∀ u, u ≠ t → PcOk k cap m' r' (p.seen u) (s.pc u))
    (hcall : ∀ c ∈ pc'.call?, ∀ u, u ≠ t → ∀ d ∈ (s.pc u).call?, c.Compatible d) :
    Inv k cap { m' with seen := Function.update p.seen t a' }
      ⟨r', Function.update s.pc t pc'⟩ where
  sound := hsound
  capacity := hcap
  head := hhead
  tail := htail
  room := hroom
  puts := hputs
  tickets := fun sd => htickets sd _ (by simp) fun u hu => by simp [hu]
  published := hpub
  thread := fun u => by
    by_cases hu : u = t
    · subst hu
      simpa using hok
    · simpa [hu] using hother u hu
  alone := fun u v huv c hc d hd => by
    change c ∈ (Function.update s.pc t pc' u).call? at hc
    change d ∈ (Function.update s.pc t pc' v).call? at hd
    by_cases hu : u = t
    · subst hu
      rw [Function.update_self] at hc
      rw [Function.update_of_ne huv.symm] at hd
      exact hcall c hc v huv.symm d hd
    · rw [Function.update_of_ne hu] at hc
      by_cases hv : v = t
      · subst hv
        rw [Function.update_self] at hd
        exact fun hside => (hcall d hd u hu c hc hside.symm).symm
      · rw [Function.update_of_ne hv] at hd
        exact h.alone u v huv c hc d hd

/-- An access that only reads. -/
theorem read (h : Inv k cap p s)
    (hticket : ∀ sd, pc'.ticket a' sd = (s.pc t).ticket (p.seen t) sd)
    (hok : PcOk k cap p.toMarks s.ring a' pc')
    (hcall : ∀ c ∈ pc'.call?, ∀ u, u ≠ t → ∀ d ∈ (s.pc u).call?, c.Compatible d) :
    Inv k cap { p with seen := Function.update p.seen t a' }
      ⟨s.ring, Function.update s.pc t pc'⟩ :=
  h.rebuild t pc' a' s.ring p.toMarks h.sound h.capacity h.head h.tail h.room h.puts
    (fun sd held ht hother => (h.tickets sd).congr fun u => by
      by_cases hu : u = t
      · subst hu
        rw [ht, hticket sd]
      · exact hother u hu)
    h.published hok (fun u _ => h.thread u) hcall

/-- The same where the thread keeps what it has read. -/
theorem stay (h : Inv k cap p s)
    (hticket : ∀ sd, pc'.ticket (p.seen t) sd = (s.pc t).ticket (p.seen t) sd)
    (hok : PcOk k cap p.toMarks s.ring (p.seen t) pc')
    (hcall : ∀ c ∈ pc'.call?, ∀ u, u ≠ t → ∀ d ∈ (s.pc u).call?, c.Compatible d) :
    Inv k cap p ⟨s.ring, Function.update s.pc t pc'⟩ := by
  have := h.read hticket hok hcall
  rwa [Function.update_eq_self] at this

/-- A call that moves the head takes the next block. -/
theorem moveHead (h : Inv k cap p s) (hpc : s.pc t = .moveHead c l)
    (hmove : c.single = true ∨ (s.ring.ht c.side).head = l.oldHead)
    (hlap : p.head c.side + cap < p.seen t + 2 ^ 32) :
    Inv k cap (p.after t (.movedHead c l.n))
      ⟨s.ring.setHead c.side (l.oldHead + l.n), Function.update s.pc t (.copy c l 0 [])⟩ := by
  have hok := h.thread t
  rw [hpc] at hok
  obtain ⟨hloaded, hgrant, hne, hroom⟩ := hok
  have hat := h.at_head hpc hmove hlap
  have hroom := hroom hat
  have hn : l.n.toNat ≤ c.n.toNat ∧ l.n.toNat ≤ l.entries.toNat := by
    rw [hgrant]
    exact grant_le _ _ _
  have hpos := toNat_pos hne
  have hhead : l.oldHead + l.n = counter 32 (p.head c.side + l.n.toNat) := by
    rw [hloaded.oldHead, hat, counter_add_bits]
  -- the objects get the positions after those that were there
  have hputs : ∀ q, q < p.puts.length → (p.puts ++ c.objs.take l.n.toNat)[q]? = p.puts[q]? :=
    fun q hq => List.getElem?_append_left hq
  have hcalls : ∀ u, u ≠ t → ∀ d ∈ (s.pc u).call?, d.single = true → d.side ≠ c.side :=
    fun u hu d hd hsingle heq =>
      h.single_alone hu hd (by rw [hpc]; rfl) hsingle heq.symm
  have hinv := h.rebuild t (.copy c l 0 []) (p.seen t) (s.ring.setHead c.side (l.oldHead + l.n))
    (p.after t (.movedHead c l.n)).toMarks (h.sound.setHead _ _)
    (by rw [capacity_setHead, h.capacity])
    (fun sd => by
      rw [ht_setHead_head]
      split
      · rename_i hsd
        subst hsd
        rw [hhead]
        simp [Positions.after]
      · rename_i hsd
        simpa [Positions.after, hsd] using h.head sd)
    (fun sd => by rw [ht_setHead_tail]; exact h.tail sd)
    (fun sd => by
      by_cases hsd : sd = c.side
      · subst hsd
        have hle : p.head c.side + l.n.toNat ≤ p.reach cap c.side := by omega
        simpa [Positions.after, Marks.reach] using hle
      · simpa [Positions.after, hsd, Marks.reach] using h.room sd)
    (by
      have hlen := h.puts
      cases hside : c.side with
      | prod =>
          have hfits := Call.n_of_fits hloaded.fits hside
          simp only [Positions.after, hside, List.length_append, List.length_take,
            Function.update_self]
          omega
      | cons =>
          simpa [Positions.after, hside, Call.objs_of_cons hside] using hlen)
    (fun sd held ht hother => by
      by_cases hsd : sd = c.side
      · subst hsd
        have hissue : Tickets _ _ held := (h.tickets c.side).issue hpos (by rw [hpc]; rfl)
          (by rw [ht, ticket_copy, hat]) hother
        simpa [Positions.after] using hissue
      · have hcongr : Tickets _ _ held := (h.tickets sd).congr fun u => by
          by_cases hu : u = t
          · subst hu
            rw [ht, hpc]
            exact if_neg fun heq => hsd heq.symm
          · exact hother u hu
        simpa [Positions.after, hsd] using hcongr)
    (h.published.congr (fun q _ _ => by rw [slots_setHead]) fun q _ hq => hputs q (by
      have := h.order.2.2.1
      have hlen := h.puts
      change q < p.tail .prod at hq
      omega))
    (by
      refine ⟨⟨hloaded.fits, hloaded.oldHead, hgrant, hne, hroom, fun hside i hi => ?_⟩,
        Nat.zero_le _, ?_⟩
      · have hlen := h.puts
        rw [hside] at hat
        change (p.puts ++ c.objs.take l.n.toNat)[p.seen t + i]? = c.objs[i]?
        rw [List.getElem?_append_right (by omega), List.getElem?_take, if_pos (by omega)]
        congr 1
        omega
      · cases c with
        | enqueue objTable b sp => exact ⟨rfl, fun q hq hq' => by omega⟩
        | dequeue n b sc => simp [Copied])
    (fun u hu => (h.thread u).frame
      (fun sd => by
        by_cases hsd : sd = c.side
        · subst hsd
          simp [Positions.after]
        · simp [Positions.after, hsd])
      (fun sd => by cases sd <;> exact Nat.le_refl _)
      (fun sd n q ht hq => hputs q (Nat.lt_of_lt_of_le hq (h.ticket_le ht)))
      (fun d hd hsingle => by simp [Positions.after, hcalls u hu d hd hsingle])
      (fun sd n _ => rfl) fun n q _ _ _ => by rw [slots_setHead])
    (h.compatible_of_call fun d hd => by rw [hpc]; exact hd)
  rwa [Function.update_eq_self] at hinv

/-- The next object goes into the slot of its position. -/
theorem put (h : Inv k cap p s) {objTable : List α} {b : QueueBehavior} {sp : Bool} {i idx : Nat}
    {table : List (Option α)} {obj : α}
    (hpc : s.pc t = .copy (.enqueue objTable b sp) l i table)
    (hidx : (s.ring.ptrIndexes l.oldHead l.n)[i]? = some idx) (hobj : objTable[i]? = some obj) :
    Inv k cap p ⟨s.ring.setSlot idx obj,
      Function.update s.pc t (.copy (.enqueue objTable b sp) l (i + 1) table)⟩ := by
  have hok := h.thread t
  rw [hpc] at hok
  obtain ⟨hclaimed, hi, htable, hstored⟩ := hok
  have hticket : (s.pc t).ticket (p.seen t) .prod = some (p.seen t, l.n.toNat) := by
    rw [hpc]
    rfl
  obtain ⟨hlo, -, hhi⟩ := (h.tickets .prod).within hticket
  obtain ⟨h₁, h₂, h₃, h₄⟩ := h.order
  rw [h.copy_index hpc] at hidx
  split at hidx
  · rename_i hlt
    obtain rfl : (p.seen t + i) % 2 ^ k = idx := by simpa using hidx
    -- no other position in use has this slot
    have hslots : ∀ q, q ≠ p.seen t + i → p.tail .cons ≤ q → q < p.head .prod →
        (s.ring.setSlot ((p.seen t + i) % 2 ^ k) obj).slots[q % 2 ^ k]? =
          s.ring.slots[q % 2 ^ k]? := fun q hne hq hq' => by
      rw [RteRing.setSlot, List.getElem?_set_ne]
      exact h.slot_ne hne.symm (by omega) (by omega) hq hq'
    have hinv := h.rebuild t (.copy (.enqueue objTable b sp) l (i + 1) table) (p.seen t)
      (s.ring.setSlot ((p.seen t + i) % 2 ^ k) obj) p.toMarks
      (h.sound.setSlot _ _) h.capacity (fun sd => by rw [ht_setSlot, h.head])
      (fun sd => by rw [ht_setSlot, h.tail]) h.room h.puts
      (fun sd held ht hother => (h.tickets sd).congr fun u => by
        by_cases hu : u = t
        · subst hu
          rw [ht, hpc]
          rfl
        · exact hother u hu)
      (h.published.congr (fun q hq hq' => hslots q (by omega) (by omega) (by omega))
        fun _ _ _ => rfl)
      (by
        refine ⟨hclaimed, hlt, htable, fun q hq hq' => ?_⟩
        by_cases hlast : q = p.seen t + i
        · subst hlast
          have hslot : (p.seen t + i) % 2 ^ k < s.ring.slots.length := by
            rw [h.sound.slots]
            exact Nat.mod_lt _ (Nat.two_pow_pos k)
          rw [RteRing.setSlot, List.getElem?_set_self hslot, hclaimed.objs rfl i hlt]
          exact congrArg some hobj.symm
        · rw [hslots q hlast (by omega) (by omega)]
          exact hstored q hq (by omega))
      (fun u hu => (h.thread u).frame (fun _ => Nat.le_refl _) (fun _ => Nat.le_refl _)
        (fun _ _ _ _ _ => rfl) (fun _ _ _ => rfl) (fun _ _ _ => rfl) fun n q ht hq hq' => by
          have hapart := (h.tickets .prod).apart hu ht hticket
          have hwithin := (h.tickets .prod).within ht
          exact hslots q (by omega) (by omega) (by omega))
      (h.compatible_of_call fun d hd => by rw [hpc]; exact hd)
    rwa [Function.update_eq_self] at hinv
  · cases hidx

/-- The call whose turn it is gives its block back. -/
theorem storeTail (h : Inv k cap p s) {table : List (Option α)} {res : Result α}
    (hpc : s.pc t = .storeTail c l table) :
    Inv k cap (p.after t (.storedTail c l.n))
      ⟨s.ring.setTail c.side (l.oldHead + l.n), Function.update s.pc t (.finish res)⟩ := by
  have hok := h.thread t
  rw [hpc] at hok
  obtain ⟨hclaimed, hturn, hcopied⟩ := hok
  have hticket : (s.pc t).ticket (p.seen t) c.side = some (p.tail c.side, l.n.toNat) := by
    rw [hpc, hturn]
    exact ticket_storeTail ..
  obtain ⟨-, -, hhi⟩ := (h.tickets c.side).within hticket
  obtain ⟨h₁, h₂, h₃, h₄⟩ := h.order
  have hnew : l.oldHead + l.n = counter 32 (p.tail c.side + l.n.toNat) := by
    rw [hclaimed.oldHead, ← hturn, counter_add_bits]
  have hreach : ∀ sd, p.reach cap sd ≤
      (p.after t (.storedTail c l.n)).toMarks.reach cap sd := by
    intro sd
    cases hside : c.side <;> cases sd <;> simp [Positions.after, Marks.reach, hside]
  have hinv := h.rebuild t (.finish res) (p.seen t) (s.ring.setTail c.side (l.oldHead + l.n))
    (p.after t (.storedTail c l.n)).toMarks (h.sound.setTail _ _)
    (by rw [capacity_setTail, h.capacity])
    (fun sd => by rw [ht_setTail_head]; exact h.head sd)
    (fun sd => by
      rw [ht_setTail_tail]
      split
      · rename_i hsd
        subst hsd
        rw [hnew]
        simp [Positions.after]
      · rename_i hsd
        simpa [Positions.after, hsd] using h.tail sd)
    (fun sd => Nat.le_trans (h.room sd) (hreach sd)) h.puts
    (fun sd held ht hother => by
      by_cases hsd : sd = c.side
      · subst hsd
        have hredeem : Tickets _ _ held := (h.tickets c.side).redeem hticket (by rw [ht]; rfl)
          hother
        simpa [Positions.after] using hredeem
      · have hcongr : Tickets _ _ held := (h.tickets sd).congr fun u => by
          by_cases hu : u = t
          · subst hu
            rw [ht, hpc]
            exact (if_neg fun heq => hsd heq.symm).symm
          · exact hother u hu
        simpa [Positions.after, hsd] using hcongr)
    (by
      cases c with
      | enqueue objTable b sp =>
          -- what was published, and the block that now is
          intro q hq hq'
          change p.tail .cons ≤ q at hq
          change q < p.tail .prod + l.n.toNat at hq'
          change p.tail .prod = p.seen t at hturn
          change (s.ring.setTail .prod _).slots[q % 2 ^ k]? = some p.puts[q]?
          rw [slots_setTail]
          by_cases hold : q < p.tail .prod
          · exact h.published q hq hold
          · exact hcopied.2 q (by omega) (by omega)
      | dequeue n b sc =>
          refine (h.published.mono ?_ (Nat.le_refl _)).congr (fun q _ _ => by rw [slots_setTail])
            fun _ _ _ => rfl
          exact Nat.le_add_right _ _)
    trivial
    (fun u hu => (h.thread u).frame (fun _ => Nat.le_refl _) hreach (fun _ _ _ _ _ => rfl)
      (fun _ _ _ => rfl)
      (fun sd n ht => by
        by_cases hsd : sd = c.side
        · subst hsd
          have heq := (call_of_ticket ht).1
          rw [heq] at ht hticket
          exact (h.lowest_unique hu ht hticket).elim
        · simp [Positions.after, hsd])
      fun n q _ _ _ => by rw [slots_setTail])
    (fun d hd => by cases hd)
  rwa [Function.update_eq_self] at hinv

/-- Every access keeps the invariant. -/
theorem move (h : Inv k cap p s) {pc : Pc α} {o : Act α} (hpc : s.pc t = pc)
    (hmove : Move s.ring pc r' pc' o)
    (hlap : ∀ c n, o = .movedHead c n ∨ o = .readTail c →
      p.head c.side + cap < p.seen t + 2 ^ 32) :
    Inv k cap (p.after t o) ⟨r', Function.update s.pc t pc'⟩ := by
  have hok := h.thread t
  have hcalls := fun (hc : ∀ c ∈ pc'.call?, c ∈ (s.pc t).call?) => h.compatible_of_call hc
  rw [hpc] at hok hcalls
  cases hmove with
  | @readHead c =>
      exact h.read (fun sd => by rw [hpc]; rfl)
        ⟨hok, h.head c.side, Nat.le_refl _, fun _ => rfl⟩ (hcalls fun d hd => hd)
  | nothing hzero =>
      exact h.stay (fun sd => by rw [hpc]; rfl) trivial (hcalls fun d hd => by cases hd)
  | @readTail c oldHead n hn hne =>
      refine h.stay (fun sd => by rw [hpc]; rfl) ⟨hok, hn, hne, fun heq => ?_⟩
        (hcalls fun d hd => hd)
      change p.seen t + (s.ring.entries c.side oldHead).toNat ≤ p.reach cap c.side
      have hroom := h.room c.side
      have hle := hok.le
      rw [hok.oldHead, h.toNat_entries hle (hlap c 0 (.inr rfl))]
      omega
  | @moveHead c l hat => exact h.moveHead hpc hat (hlap c l.n (.inl rfl))
  | retry hsingle hne =>
      exact h.stay (fun sd => by rw [hpc]; rfl) hok.1.fits (hcalls fun d hd => hd)
  | put hidx hobj => exact h.put hpc hidx hobj
  | @get n b sc l i idx table slot hidx hslot =>
      obtain ⟨hclaimed, hi, htable⟩ := hok
      rw [h.copy_index hpc] at hidx
      split at hidx
      · rename_i hlt
        obtain rfl : (p.seen t + i) % 2 ^ k = idx := by simpa using hidx
        refine h.stay (fun sd => by rw [hpc]; rfl) ⟨hclaimed, hlt, ?_⟩ (hcalls fun d hd => hd)
        -- the block lies among the published positions
        have hticket : (s.pc t).ticket (p.seen t) .cons = some (p.seen t, l.n.toNat) := by
          rw [hpc]
          rfl
        have hin := (h.tickets .cons).within hticket
        obtain ⟨h₁, h₂, h₃, h₄⟩ := h.order
        have hputs := h.puts
        have hslot' := h.published (p.seen t + i) (by omega) (by omega)
        rw [hslot] at hslot'
        have hlen : i < (p.puts.drop (p.seen t)).length := by
          rw [List.length_drop]
          omega
        have hget : (p.puts.drop (p.seen t))[i]? = p.puts[p.seen t + i]? := List.getElem?_drop
        change table ++ [slot] = ((p.puts.drop (p.seen t)).take (i + 1)).map some
        rw [List.take_add_one, List.map_append, ← (htable : table = _), hget,
          Option.some.inj hslot']
        rw [← hget, List.getElem?_eq_getElem hlen]
        rfl
      · cases hidx
  | wait hdone hne => exact h.stay (fun sd => by rw [hpc]) hok (hcalls fun d hd => hd)
  | @reach c l i table hdone hturn =>
      obtain ⟨hclaimed, hi, hcopied⟩ := hok
      have hend : i = l.n.toNat := by
        rw [h.copy_index hpc] at hdone
        split at hdone
        · cases hdone
        · omega
      have hticket : (s.pc t).ticket (p.seen t) c.side = some (p.seen t, l.n.toNat) := by
        rw [hpc]
        exact ticket_copy ..
      have hin := (h.tickets c.side).within hticket
      have hcap := h.cap_lt
      have hroom := h.room c.side
      have hreach := h.reach_le c.side
      have hle : p.head c.side ≤ p.tail c.side + cap := by
        obtain ⟨h₁, h₂, h₃, h₄⟩ := h.order
        cases c.side <;> omega
      refine h.stay (fun sd => by rw [hpc]; rfl) ⟨hclaimed, ?_, hend ▸ hcopied⟩
        (hcalls fun d hd => hd)
      rcases hturn with hsingle | htail
      · refine ((h.tickets c.side).eq_lo_of_only hticket fun u hu => ?_).symm
        rcases hu' : (s.pc u).ticket (p.seen u) c.side with _ | ⟨b, n⟩
        · rfl
        · obtain ⟨-, d, hd, hside⟩ := call_of_ticket hu'
          exact absurd hside (h.single_alone hu.symm (by rw [hpc]; rfl) hd hsingle)
      · rw [h.tail, hclaimed.oldHead] at htail
        exact eq_of_counter_eq hin.1 (by omega) htail
  | storeTail => exact h.storeTail hpc
  | finish => exact h.stay (fun sd => by rw [hpc]; rfl) trivial (hcalls fun d hd => by cases hd)

/-- So does a call that keeps to the contract. -/
theorem call (h : Inv k cap p s) (hpc : s.pc t = .idle) (hfits : c.Fits)
    (hexcl : Exclusive s (.call t c)) :
    Inv k cap p ⟨s.ring, Function.update s.pc t (.loadHead c)⟩ :=
  h.stay (fun sd => by rw [hpc]; rfl) hfits fun d hd u hu e he => by
    obtain rfl : c = d := by simpa [Pc.call?] using hd
    exact hexcl u hu e he

end Inv

/-! ## Runs -/

/-- A ring as it was set up. -/
theorem inv_start {name : List Char} {count flags : BitVec 32} {r : RteRing α}
    (hinit : rteRingInit α name count flags = .ok r) (hsound : r.Sound k) :
    Inv k r.capacity.toNat (Positions.start : Positions τ α) (State.start r) := by
  have hzero := (rteRingInit_ok hinit).2.2.1
  exact {
    sound := hsound
    capacity := rfl
    head := fun sd => (hzero sd).1
    tail := fun sd => (hzero sd).2
    room := fun sd => Nat.zero_le _
    puts := rfl
    tickets := fun sd => .none_held 0
    published := fun q _ hq => absurd hq (Nat.not_lt_zero q)
    thread := fun _ => trivial
    alone := fun _ _ _ _ hc => by cases hc }

variable [DecidableEq τ] {s s' s₀ : State τ α} {e : Event τ α} {o : Act α} {hist : History τ α}

/-- What a step is. -/
theorem step_cases (h : step s e = .ok (s', o)) :
    (∃ t c, e = .call t c ∧ s.pc t = .idle ∧ c.Fits ∧ o = .called c ∧
      s' = ⟨s.ring, Function.update s.pc t (.loadHead c)⟩) ∨
    ∃ t r' pc', e = .go t ∧ Move s.ring (s.pc t) r' pc' o ∧
      s' = ⟨r', Function.update s.pc t pc'⟩ := by
  cases e with
  | call t c =>
      simp only [step] at h
      split at h
      · rename_i hpc
        split at h
        · rename_i hfits
          cases h
          exact .inl ⟨t, c, rfl, hpc, hfits, rfl, rfl⟩
        · cases h
      · cases h
  | go t =>
      obtain ⟨⟨r', pc', o'⟩, hadv, hput⟩ := map_eq_ok_iff.mp h
      cases hput
      exact .inr ⟨t, r', pc', rfl, move_of_advance hadv, rfl⟩

theorem Inv.kept (h : Inv k cap (positions hist) s)
    (hstep : Guarded Exclusive (StepsOf step) s e o s')
    (hlap : NotLapped cap hist (e, o)) : Inv k cap (positions (hist ++ [(e, o)])) s' := by
  rw [positions_snoc]
  rcases step_cases hstep.2 with ⟨t, c, rfl, hpc, hfits, rfl, rfl⟩ | ⟨t, r', pc', rfl, hmove, rfl⟩
  · exact h.call hpc hfits hstep.1
  · refine h.move rfl hmove fun c n ho => ?_
    rcases ho with rfl | rfl <;> exact hlap

/-- The invariant holds in every run. -/
theorem inv_of_run {name : List Char} {count flags : BitVec 32} {r : RteRing α}
    (hinit : rteRingInit α name count flags = .ok r) (hsound : r.Sound k)
    (hrun : RingRun r hist s) (hlap : AtEveryEntry (NotLapped r.capacity.toNat) hist) :
    Inv k r.capacity.toNat (positions hist) s := by
  induction hrun with
  | start => exact inv_start hinit hsound
  | step _ hR ih =>
      obtain ⟨hpast, hlast⟩ := atEveryEntry_snoc.mp hlap
      exact (ih hpast).kept hR hlast

end LinuxLearning.Ring
