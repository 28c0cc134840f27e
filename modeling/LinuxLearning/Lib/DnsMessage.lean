/-
  LinuxLearning.Lib.DnsMessage

  The wire form of DNS messages up to their records: a header of six numbers
  and the questions, each a name, a type and a class.  A reader is given for
  each part, and it accepts just the wire forms.  Names are not compressed.
-/

import Mathlib.Data.List.Basic

namespace LinuxLearning.Lib

/-- The bytes of a message. -/
abbrev Octets := List (BitVec 8)

/-! ## Names -/

/-- A label has 1 to 63 bytes. -/
def IsLabel (label : Octets) : Prop := 0 < label.length ∧ label.length < 64

instance (label : Octets) : Decidable (IsLabel label) :=
  inferInstanceAs (Decidable (_ ∧ _))

/-- A name: each label behind its length, and a zero. -/
def wireName : List Octets → Octets
  | [] => [0]
  | label :: labels => BitVec.ofNat 8 label.length :: label ++ wireName labels

/-- Read a name of fewer than `fuel` labels. -/
def readName : Nat → Octets → Option (List Octets × Octets)
  | 0, _ => none
  | _ + 1, [] => none
  | fuel + 1, n :: rest =>
      if n = 0 then some ([], rest)
      -- from 64 on, a pointer or a reserved form
      else if 64 ≤ n.toNat ∨ rest.length < n.toNat then none
      else (readName fuel (rest.drop n.toNat)).map fun r => (rest.take n.toNat :: r.1, r.2)

theorem length_lt_wireName (labels : List Octets) : labels.length < (wireName labels).length := by
  induction labels with
  | nil => exact Nat.zero_lt_one
  | cons label labels ih =>
      simp only [wireName, List.cons_append, List.length_cons, List.length_append]
      omega

/-- What a label's length byte says. -/
theorem IsLabel.length_byte {label : Octets} (h : IsLabel label) :
    (BitVec.ofNat 8 label.length).toNat = label.length ∧ BitVec.ofNat 8 label.length ≠ 0 := by
  have hlt : label.length < 2 ^ 8 := Nat.lt_trans h.2 (by decide)
  have hnat : (BitVec.ofNat 8 label.length).toNat = label.length :=
    BitVec.toNat_ofNat .. |>.trans (Nat.mod_eq_of_lt hlt)
  refine ⟨hnat, fun hzero => ?_⟩
  rw [hzero] at hnat
  exact Nat.ne_of_lt h.1 hnat

/-- The reader takes a wire form off the front. -/
theorem readName_wireName {labels : List Octets} (hlabels : ∀ l ∈ labels, IsLabel l)
    (rest : Octets) : ∀ {fuel : Nat}, labels.length < fuel →
      readName fuel (wireName labels ++ rest) = some (labels, rest) := by
  induction labels with
  | nil =>
      intro fuel hfuel
      obtain ⟨n, rfl⟩ := Nat.exists_eq_succ_of_ne_zero (Nat.ne_of_gt hfuel)
      rfl
  | cons label labels ih =>
      intro fuel hfuel
      rw [List.forall_mem_cons] at hlabels
      obtain ⟨n, rfl⟩ := Nat.exists_eq_succ_of_ne_zero (Nat.ne_of_gt (Nat.zero_lt_of_lt hfuel))
      obtain ⟨hnat, hne⟩ := hlabels.1.length_byte
      have hlong : ¬ (64 ≤ label.length ∨
          (label ++ (wireName labels ++ rest)).length < label.length) := by
        have := hlabels.1.2
        simp only [List.length_append]
        omega
      rw [wireName, List.cons_append, List.cons_append, List.append_assoc, readName, if_neg hne,
        hnat, if_neg hlong, List.drop_left, List.take_left,
        ih hlabels.2 (Nat.lt_of_succ_lt_succ hfuel)]
      rfl

/-- What the reader accepts is a wire form. -/
theorem eq_wireName_of_readName {fuel : Nat} {bytes rest : Octets} {labels : List Octets}
    (h : readName fuel bytes = some (labels, rest)) :
    (∀ l ∈ labels, IsLabel l) ∧ bytes = wireName labels ++ rest := by
  induction fuel generalizing bytes labels with
  | zero => cases h
  | succ fuel ih =>
      cases bytes with
      | nil => cases h
      | cons n bytes =>
          rw [readName] at h
          split at h
          · rename_i hn
            obtain ⟨rfl, rfl⟩ := Prod.mk.inj (Option.some.inj h)
            exact ⟨by simp, by rw [hn]; rfl⟩
          · rename_i hn
            split at h
            · cases h
            · rename_i hfits
              obtain ⟨⟨ls, r⟩, hread, heq⟩ := Option.map_eq_some_iff.mp h
              obtain ⟨rfl, rfl⟩ := Prod.mk.inj heq
              obtain ⟨hlabels, hbytes⟩ := ih hread
              have hlen : (bytes.take n.toNat).length = n.toNat := by
                rw [List.length_take]
                omega
              have hpos : 0 < n.toNat := Nat.pos_of_ne_zero fun h0 => hn (BitVec.eq_of_toNat_eq h0)
              refine ⟨List.forall_mem_cons.mpr ⟨⟨by omega, by omega⟩, hlabels⟩, ?_⟩
              rw [wireName, hlen, BitVec.ofNat_toNat, BitVec.setWidth_eq, List.cons_append,
                List.cons_append, List.append_assoc, ← hbytes, List.take_append_drop]

/-- The reader accepts just the wire forms of names. -/
theorem readName_eq_some_iff {bytes rest : Octets} {labels : List Octets} :
    readName bytes.length bytes = some (labels, rest) ↔
      (∀ l ∈ labels, IsLabel l) ∧ bytes = wireName labels ++ rest := by
  refine ⟨eq_wireName_of_readName, ?_⟩
  rintro ⟨hlabels, rfl⟩
  refine readName_wireName hlabels rest (Nat.lt_of_lt_of_le (length_lt_wireName labels) ?_)
  rw [List.length_append]
  exact Nat.le_add_right ..

/-! ## Numbers -/

/-- A number of 16 bits, the high byte first. -/
def wire16 (v : BitVec 16) : Octets := [v.extractLsb' 8 8, v.extractLsb' 0 8]

def read16 : Octets → Option (BitVec 16 × Octets)
  | high :: low :: rest => some (high ++ low, rest)
  | _ => none

theorem read16_eq_some_iff {bytes rest : Octets} {v : BitVec 16} :
    read16 bytes = some (v, rest) ↔ bytes = wire16 v ++ rest := by
  constructor
  · intro h
    rcases bytes with _ | ⟨high, _ | ⟨low, bytes⟩⟩
    · cases h
    · cases h
    · obtain ⟨rfl, rfl⟩ := Prod.mk.inj (Option.some.inj h)
      rw [wire16, BitVec.extractLsb'_append_eq_left, BitVec.extractLsb'_append_eq_right]
      rfl
  · rintro rfl
    have hv : v.extractLsb' 8 8 ++ v.extractLsb' 0 8 = v :=
      @BitVec.extractLsb'_append_extractLsb' 8 8 v
    rw [wire16, List.cons_append, List.cons_append, read16, hv]
    rfl

@[simp] theorem read16_wire16 (v : BitVec 16) (rest : Octets) :
    read16 (wire16 v ++ rest) = some (v, rest) := read16_eq_some_iff.mpr rfl

/-! ## Questions -/

/-- A question of a message. -/
structure DnsQuestion where
  labels : List Octets
  qtype : BitVec 16
  qclass : BitVec 16
deriving DecidableEq

namespace DnsQuestion

/-- Its name has at most 255 bytes. -/
structure IsValid (q : DnsQuestion) : Prop where
  labels : ∀ l ∈ q.labels, IsLabel l
  length : (wireName q.labels).length ≤ 255

def wire (q : DnsQuestion) : Octets := wireName q.labels ++ wire16 q.qtype ++ wire16 q.qclass

def read (bytes : Octets) : Option (DnsQuestion × Octets) := do
  let (labels, bytes) ← readName bytes.length bytes
  let (qtype, bytes) ← read16 bytes
  let (qclass, bytes) ← read16 bytes
  if (wireName labels).length ≤ 255 then return (⟨labels, qtype, qclass⟩, bytes) else none

theorem read_eq_some_iff {bytes rest : Octets} {q : DnsQuestion} :
    read bytes = some (q, rest) ↔ q.IsValid ∧ bytes = q.wire ++ rest := by
  constructor
  · intro h
    obtain ⟨⟨labels, bytes₁⟩, hname, h⟩ := Option.bind_eq_some_iff.mp h
    obtain ⟨⟨qtype, bytes₂⟩, htype, h⟩ := Option.bind_eq_some_iff.mp h
    obtain ⟨⟨qclass, bytes₃⟩, hclass, h⟩ := Option.bind_eq_some_iff.mp h
    simp only [] at htype hclass h
    split at h
    · rename_i hlen
      obtain ⟨rfl, rfl⟩ := Prod.mk.inj (Option.some.inj h)
      obtain ⟨hlabels, rfl⟩ := readName_eq_some_iff.mp hname
      obtain rfl := read16_eq_some_iff.mp htype
      obtain rfl := read16_eq_some_iff.mp hclass
      exact ⟨⟨hlabels, hlen⟩, by simp [wire]⟩
    · cases h
  · rintro ⟨hq, rfl⟩
    have hname : readName (q.wire ++ rest).length (q.wire ++ rest) =
        some (q.labels, wire16 q.qtype ++ (wire16 q.qclass ++ rest)) :=
      readName_eq_some_iff.mpr ⟨hq.labels, by simp [wire]⟩
    simp only [read, hname, read16_wire16, hq.length, if_true, Option.bind_eq_bind,
      Option.bind_some]
    rfl

/-- Read `n` questions. -/
def readMany : Nat → Octets → Option (List DnsQuestion × Octets)
  | 0, bytes => some ([], bytes)
  | n + 1, bytes => do
      let (q, bytes) ← read bytes
      let (qs, bytes) ← readMany n bytes
      return (q :: qs, bytes)

theorem readMany_eq_some_iff {n : Nat} {bytes rest : Octets} {qs : List DnsQuestion} :
    readMany n bytes = some (qs, rest) ↔
      qs.length = n ∧ (∀ q ∈ qs, q.IsValid) ∧ bytes = qs.flatMap wire ++ rest := by
  induction n generalizing bytes qs with
  | zero =>
      constructor
      · intro h
        obtain ⟨rfl, rfl⟩ := Prod.mk.inj (Option.some.inj h)
        exact ⟨rfl, by simp, rfl⟩
      · rintro ⟨hlen, -, rfl⟩
        obtain rfl := List.eq_nil_of_length_eq_zero hlen
        rfl
  | succ n ih =>
      constructor
      · intro h
        obtain ⟨⟨q, bytes₁⟩, hread, h⟩ := Option.bind_eq_some_iff.mp h
        obtain ⟨⟨qs', bytes₂⟩, hmany, h⟩ := Option.bind_eq_some_iff.mp h
        obtain ⟨rfl, rfl⟩ := Prod.mk.inj (Option.some.inj h)
        obtain ⟨hq, rfl⟩ := read_eq_some_iff.mp hread
        obtain ⟨rfl, hqs, rfl⟩ := ih.mp hmany
        exact ⟨rfl, List.forall_mem_cons.mpr ⟨hq, hqs⟩, by simp⟩
      · rintro ⟨hlen, hvalid, rfl⟩
        obtain ⟨q, qs, rfl⟩ := List.exists_cons_of_length_eq_add_one hlen
        rw [List.forall_mem_cons] at hvalid
        have hread : read ((q :: qs).flatMap wire ++ rest) = some (q, qs.flatMap wire ++ rest) :=
          read_eq_some_iff.mpr ⟨hvalid.1, by simp⟩
        have hmany : readMany n (qs.flatMap wire ++ rest) = some (qs, rest) :=
          ih.mpr ⟨Nat.succ.inj hlen, hvalid.2, rfl⟩
        refine Option.bind_eq_some_iff.mpr ⟨_, hread, ?_⟩
        exact Option.bind_eq_some_iff.mpr ⟨_, hmany, rfl⟩

end DnsQuestion

/-! ## Messages -/

/-- A message, with the numbers of its records in place of the records. -/
structure DnsMessage where
  id : BitVec 16
  flags : BitVec 16
  questions : List DnsQuestion
  answers : BitVec 16
  authorities : BitVec 16
  additional : BitVec 16
deriving DecidableEq

namespace DnsMessage

/-- What can be counted, of valid questions. -/
structure IsValid (m : DnsMessage) : Prop where
  count : m.questions.length < 65536
  questions : ∀ q ∈ m.questions, q.IsValid

/-- The message without its records. -/
def wire (m : DnsMessage) : Octets :=
  wire16 m.id ++ wire16 m.flags ++ wire16 (BitVec.ofNat 16 m.questions.length) ++
    wire16 m.answers ++ wire16 m.authorities ++ wire16 m.additional ++
    m.questions.flatMap DnsQuestion.wire

/-- Read a message up to its records, and what follows. -/
def read (bytes : Octets) : Option (DnsMessage × Octets) := do
  let (id, bytes) ← read16 bytes
  let (flags, bytes) ← read16 bytes
  let (count, bytes) ← read16 bytes
  let (answers, bytes) ← read16 bytes
  let (authorities, bytes) ← read16 bytes
  let (additional, bytes) ← read16 bytes
  let (questions, bytes) ← DnsQuestion.readMany count.toNat bytes
  return (⟨id, flags, questions, answers, authorities, additional⟩, bytes)

/-- The reader accepts just the wire forms of valid messages. -/
theorem read_eq_some_iff {bytes rest : Octets} {m : DnsMessage} :
    read bytes = some (m, rest) ↔ m.IsValid ∧ bytes = m.wire ++ rest := by
  constructor
  · intro h
    obtain ⟨⟨id, bytes₁⟩, hid, h⟩ := Option.bind_eq_some_iff.mp h
    obtain ⟨⟨flags, bytes₂⟩, hflags, h⟩ := Option.bind_eq_some_iff.mp h
    obtain ⟨⟨count, bytes₃⟩, hcount, h⟩ := Option.bind_eq_some_iff.mp h
    obtain ⟨⟨answers, bytes₄⟩, hanswers, h⟩ := Option.bind_eq_some_iff.mp h
    obtain ⟨⟨authorities, bytes₅⟩, hauth, h⟩ := Option.bind_eq_some_iff.mp h
    obtain ⟨⟨additional, bytes₆⟩, hadd, h⟩ := Option.bind_eq_some_iff.mp h
    obtain ⟨⟨questions, bytes₇⟩, hqs, h⟩ := Option.bind_eq_some_iff.mp h
    obtain ⟨rfl, rfl⟩ := Prod.mk.inj (Option.some.inj h)
    obtain ⟨hlen, hvalid, rfl⟩ := DnsQuestion.readMany_eq_some_iff.mp hqs
    obtain rfl := read16_eq_some_iff.mp hadd
    obtain rfl := read16_eq_some_iff.mp hauth
    obtain rfl := read16_eq_some_iff.mp hanswers
    obtain rfl := read16_eq_some_iff.mp hcount
    obtain rfl := read16_eq_some_iff.mp hflags
    obtain rfl := read16_eq_some_iff.mp hid
    refine ⟨⟨?_, hvalid⟩, ?_⟩
    · show questions.length < 65536
      rw [hlen]
      exact count.isLt
    · simp [wire, hlen]
  · rintro ⟨hm, rfl⟩
    have hcount : (BitVec.ofNat 16 m.questions.length).toNat = m.questions.length := by
      rw [BitVec.toNat_ofNat, Nat.mod_eq_of_lt hm.count]
    have hqs : DnsQuestion.readMany (BitVec.ofNat 16 m.questions.length).toNat
        (m.questions.flatMap DnsQuestion.wire ++ rest) = some (m.questions, rest) :=
      DnsQuestion.readMany_eq_some_iff.mpr ⟨hcount.symm, hm.questions, rfl⟩
    simp only [read, wire, List.append_assoc, read16_wire16, hqs, Option.bind_eq_bind,
      Option.bind_some]
    rfl

end DnsMessage

end LinuxLearning.Lib
