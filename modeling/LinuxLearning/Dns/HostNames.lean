/-
  LinuxLearning.Dns.HostNames

  `question_create` and `build_dns` on any host name.  The length is computed
  from the text and the name from its tokens, so that they agree for labels
  between single dots; `build_dns` reads 16 bytes of any name, and never looks
  at the length of its buffer.
-/

import LinuxLearning.Dns.Encoding
import Mathlib.Algebra.BigOperators.Group.List.Basic
import Mathlib.Data.List.TakeWhile

namespace LinuxLearning.Dns

open Lib Ustack

variable {s : List Byte}

/-! ## The tokens of a host name -/

/-- What `strtok` finds one after the other: the pieces between the dots,
    without the empty ones. -/
def tokens (s : List Byte) : List (List Byte) := (s.splitOn dev).filter (· ≠ [])

/-- What the loop stores for them: each behind the low byte of its length. -/
def encoded (labels : List (List Byte)) : List Byte :=
  labels.flatMap fun l => BitVec.ofNat 8 l.length :: l

theorem tokens_dot (s : List Byte) : tokens (dev :: s) = tokens s := by
  rw [tokens, List.splitOn_cons_eq_if_modifyHead, if_pos (BEq.refl dev)]
  rfl

theorem strtok_of_ne {b : Byte} (hb : b ≠ dev) (s : List Byte) :
    strtok (b :: s) =
      some (b :: s.takeWhile (· != dev), (s.dropWhile (· != dev)).drop 1) := by
  rw [strtok, List.dropWhile_cons_of_neg (by simpa using hb)]

/-- The first token, and the others. -/
theorem tokens_of_ne {b : Byte} (hb : b ≠ dev) (s : List Byte) :
    tokens (b :: s) =
      (b :: s.takeWhile (· != dev)) :: tokens ((s.dropWhile (· != dev)).drop 1) := by
  have hsplit := List.takeWhile_append_dropWhile (p := (· != dev)) (l := s)
  have hfree : dev ∉ b :: s.takeWhile (· != dev) := by
    rintro (_ | ⟨_, hmem⟩)
    · exact hb rfl
    · simpa using List.mem_takeWhile_imp hmem
  cases htail : s.dropWhile (· != dev) with
  | nil =>
      rw [htail, List.append_nil] at hsplit
      rw [hsplit] at hfree ⊢
      rw [tokens, List.splitOn_eq_singleton hfree]
      rfl
  | cons c tail =>
      have hc : c = dev := by
        have hhead := List.head_dropWhile_not (p := (· != dev)) (l := s) (by rw [htail]; simp)
        simpa [htail] using hhead
      rw [htail, hc] at hsplit
      have hcons : b :: s = (b :: s.takeWhile (· != dev)) ++ dev :: tail := by
        rw [List.cons_append, hsplit]
      conv => lhs; rw [hcons]
      rw [tokens, List.splitOn_append_cons_self_of_not_mem hfree, List.filter_cons_of_pos (by simp)]
      rfl

/-- Without a token `strtok` returns a null pointer. -/
theorem tokens_of_strtok_none (h : strtok s = none) : tokens s = [] := by
  induction s with
  | nil => rfl
  | cons b s ih =>
      by_cases hb : b = dev
      · subst hb
        rw [tokens_dot]
        exact ih h
      · rw [strtok_of_ne hb] at h
        cases h

theorem tokens_of_strtok {temp rest : List Byte} (h : strtok s = some (temp, rest)) :
    tokens s = temp :: tokens rest := by
  induction s with
  | nil => cases h
  | cons b s ih =>
      by_cases hb : b = dev
      · subst hb
        rw [tokens_dot]
        exact ih h
      · rw [strtok_of_ne hb] at h
        obtain ⟨rfl, rfl⟩ := Prod.mk.inj (Option.some.inj h)
        exact tokens_of_ne hb s

theorem pos_of_mem_tokens {l : List Byte} (h : l ∈ tokens s) : 0 < l.length :=
  List.length_pos_iff.mpr (by simpa using List.of_mem_filter h)

/-! ## Lengths -/

theorem encoded_cons (l : List Byte) (labels : List (List Byte)) :
    encoded (l :: labels) = BitVec.ofNat 8 l.length :: l ++ encoded labels := rfl

theorem length_encoded (labels : List (List Byte)) :
    (encoded labels).length = (labels.map fun l => l.length + 1).sum := by
  rw [encoded, List.length_flatMap]
  rfl

theorem wireName_eq (labels : List (List Byte)) : wireName labels = encoded labels ++ [0] := by
  induction labels with
  | nil => rfl
  | cons l labels ih => rw [wireName, ih, encoded_cons, List.append_assoc]

/-- The pieces have all bytes but the dots. -/
theorem length_pieces (s : List Byte) :
    ((s.splitOn dev).map fun l => l.length + 1).sum = s.length + 1 := by
  induction s with
  | nil => rfl
  | cons b s ih =>
      rw [List.splitOn_cons_eq_if_modifyHead]
      obtain ⟨l, pieces, hpieces⟩ := List.exists_cons_of_ne_nil (List.splitOn_ne_nil dev s)
      rw [hpieces] at ih ⊢
      split
      · simp only [List.map_cons, List.sum_cons, List.length_nil, List.length_cons] at ih ⊢
        omega
      · simp only [List.modifyHead_cons, List.map_cons, List.sum_cons, List.length_cons] at ih ⊢
        omega

/-- Each empty piece is a byte of the text that is not in the name. -/
theorem length_encoded_tokens (s : List Byte) :
    (encoded (tokens s)).length + (s.splitOn dev).count [] = s.length + 1 := by
  rw [← length_pieces, length_encoded, tokens]
  induction s.splitOn dev with
  | nil => rfl
  | cons l pieces ih =>
      by_cases hl : l = []
      · subst hl
        simp only [ne_eq, not_true_eq_false, decide_false, Bool.false_eq_true, not_false_eq_true,
          List.filter_cons_of_neg, List.count_cons_self, List.map_cons, List.sum_cons,
          List.length_nil] at ih ⊢
        omega
      · rw [List.filter_cons_of_pos (by simpa using hl), List.count_cons_of_ne (by simpa using hl)]
        simp only [List.map_cons, List.sum_cons]
        omega

/-! ## The block -/

/-- The block that is allocated for the name, as the loop leaves it. -/
def block (s : List Byte) : List Byte :=
  encoded (tokens s) ++ List.replicate (s.length + 2 - (encoded (tokens s)).length) 0

/-- The loop stores the tokens, and a NUL behind the last one. -/
theorem labelLoop_tokens (s : List Byte) (name : Ptr) (qname : Nat) :
    (labelLoop s name qname).bytes qname (encoded (tokens s)).length = encoded (tokens s) ∧
      (∀ i < qname, labelLoop s name qname i = name i) ∧
      ∀ i, qname + (encoded (tokens s)).length ≤ i →
        labelLoop s name qname i = name i ∨ labelLoop s name qname i = 0 := by
  fun_induction labelLoop s name qname with
  | case1 s name qname h =>
      rw [tokens_of_strtok_none h]
      exact ⟨rfl, fun _ _ => rfl, fun _ _ => .inl rfl⟩
  | case2 s name qname temp rest h hlt name₁ name₂ ih =>
      obtain ⟨hrest, hkept, hbehind⟩ := ih
      have hturn : name₂.bytes qname (temp.length + 2) =
          BitVec.ofNat 8 temp.length :: temp ++ [0] := bytes_turn name qname temp
      rw [Ptr.bytes_add _ _ (temp.length + 1) 1] at hturn
      obtain ⟨hfront, hnul⟩ := List.append_inj hturn (by simp)
      have hassoc : qname + (temp.length + 1) = qname + 1 + temp.length := by omega
      have hlen : (encoded (tokens s)).length =
          temp.length + 1 + (encoded (tokens rest)).length := by
        rw [tokens_of_strtok h, encoded_cons, List.length_append, List.length_cons]
      refine ⟨?_, fun i hi => ?_, fun i hi => ?_⟩
      · rw [hlen, Ptr.bytes_add, hassoc, hrest, Ptr.bytes_congr fun i _ hi => hkept i (by omega),
          hfront, tokens_of_strtok h, encoded_cons]
      · have hthis : name₂ i = name₁ i := Ptr.storeBytes_apply_of_lt (by omega)
        rw [hkept i (by omega), hthis]
        exact Ptr.store8_apply_of_ne (Nat.ne_of_lt hi)
      · -- the NUL of this turn is the only byte behind the token that it changes
        have hthis : name₂ i = name i ∨ name₂ i = 0 := by
          by_cases hi' : i = qname + 1 + temp.length
          · right
            rw [hi', ← hassoc]
            exact List.head_eq_of_cons_eq hnul
          · have hcopy : name₂ i = name₁ i := Ptr.storeBytes_apply_of_le (by
              rw [List.length_append, List.length_singleton]
              omega)
            rw [hcopy]
            exact .inl (Ptr.store8_apply_of_ne (by omega))
        rcases hbehind i (by omega) with hsame | hzero
        · rw [hsame]
          exact hthis
        · exact .inr hzero

/-- What `question_create` leaves in the block. -/
theorem bytes_labelLoop (s : List Byte) (heap : Ptr) :
    (labelLoop s (heap.storeBytes 0 (List.replicate (s.length + 2) 0)) 0).bytes 0 (s.length + 2) =
      block s := by
  have hle := length_encoded_tokens s
  have hzero : ∀ i < s.length + 2,
      heap.storeBytes 0 (List.replicate (s.length + 2) 0) i = 0 := by
    intro i hi
    rw [Ptr.storeBytes, if_pos ⟨Nat.zero_le _, by simpa using hi⟩]
    simp
  generalize heap.storeBytes 0 (List.replicate (s.length + 2) 0) = cleared at hzero ⊢
  obtain ⟨hfront, -, hbehind⟩ := labelLoop_tokens s cleared 0
  have hsum : s.length + 2 =
      (encoded (tokens s)).length + (s.length + 2 - (encoded (tokens s)).length) := by omega
  rw [block, hsum, Ptr.bytes_add, hfront, ← hsum]
  congr 1
  refine List.eq_replicate_iff.mpr ⟨Ptr.length_bytes .., fun b hb => ?_⟩
  obtain ⟨i, hi, rfl⟩ := List.mem_map.mp hb
  rw [List.mem_range] at hi
  rcases hbehind (0 + (encoded (tokens s)).length + i) (by omega) with hsame | hnul
  · rw [hsame]
    exact hzero _ (by omega)
  · exact hnul

theorem length_block (s : List Byte) : (block s).length = s.length + 2 := by
  have hle := length_encoded_tokens s
  rw [block, List.length_append, List.length_replicate]
  omega

/-! ## Names in the block -/

/-- The `int` that `strlen(hostname)+2` becomes. -/
def Question.intLength (q : Question) : Int := (BitVec.ofNat 32 q.length).toInt

/-- The same, of the host name. -/
def intLength (s : List Byte) : Int := (BitVec.ofNat 32 (s.length + 2)).toInt

/-- `bytes` begin with the wire form of a name that is `length` long. -/
def BeginsWithName (bytes : List Byte) (length : Int) : Prop :=
  ∃ labels, (∀ l ∈ labels, IsLabel l) ∧ length = (wireName labels).length ∧
    bytes.take (wireName labels).length = wireName labels

/-- The member `name` is a name of `length` bytes. -/
def Question.IsQname (q : Question) : Prop :=
  ∃ name, q.name = some name ∧ BeginsWithName (name.bytes 0 q.length) q.intLength

/-- Labels of 1 to 63 bytes between single dots. -/
def IsRegular (s : List Byte) : Prop := ∀ l ∈ s.splitOn dev, IsLabel l

instance (s : List Byte) : Decidable (IsRegular s) :=
  inferInstanceAs (Decidable (∀ l ∈ s.splitOn dev, IsLabel l))

/-- A length does not fit: that of a piece into its byte, or that of the whole
    name into the `int`. -/
def Overflows (s : List Byte) : Prop :=
  (∃ l ∈ s.splitOn dev, 256 ≤ l.length) ∨ 2147483648 ≤ s.length + 2

instance (s : List Byte) : Decidable (Overflows s) := inferInstanceAs (Decidable (_ ∨ _))

theorem intLength_of_lt (h : s.length + 2 < 2147483648) : intLength s = (s.length + 2 : Nat) := by
  have hnat : (BitVec.ofNat 32 (s.length + 2)).toNat = s.length + 2 := by
    rw [BitVec.toNat_ofNat]
    omega
  rw [intLength, BitVec.toInt_eq_toNat_of_lt (by rw [hnat]; omega), hnat]

theorem tokens_of_isRegular (h : IsRegular s) : tokens s = s.splitOn dev :=
  List.filter_eq_self.mpr fun l hl => by
    simpa using List.length_pos_iff.mp (h l hl).1

/-- Tokens whose lengths fit are read back. -/
theorem eq_of_encoded_append {ts labels : List (List Byte)} {n : Nat}
    (hts : ∀ l ∈ ts, 0 < l.length ∧ l.length < 256) (hlabels : ∀ l ∈ labels, IsLabel l)
    (hn : 0 < n) (h : encoded ts ++ List.replicate n 0 = wireName labels) :
    ts = labels ∧ n = 1 := by
  have hbyte : ∀ {a b : Nat}, a < 256 → b < 256 →
      BitVec.ofNat 8 a = BitVec.ofNat 8 b → a = b := by
    intro a b ha hb heq
    have hnat := congrArg BitVec.toNat heq
    simpa [BitVec.toNat_ofNat, Nat.mod_eq_of_lt ha, Nat.mod_eq_of_lt hb] using hnat
  obtain ⟨n, rfl⟩ := Nat.exists_eq_succ_of_ne_zero (Nat.ne_of_gt hn)
  induction ts generalizing labels with
  | nil =>
      cases labels with
      | nil =>
          have hlen := congrArg List.length h
          simp [encoded, wireName] at hlen
          exact ⟨rfl, by omega⟩
      | cons l labels =>
          -- the length of a label is not zero
          have hl := hlabels l List.mem_cons_self
          have hhead : (0 : Byte) = BitVec.ofNat 8 l.length := List.head_eq_of_cons_eq h
          exact absurd (hbyte (by decide) (Nat.lt_trans hl.2 (by decide)) hhead) (Nat.ne_of_lt hl.1)
  | cons t ts ih =>
      rw [List.forall_mem_cons] at hts
      cases labels with
      | nil =>
          have hhead : BitVec.ofNat 8 t.length = (0 : Byte) := List.head_eq_of_cons_eq h
          exact absurd (hbyte hts.1.2 (by decide) hhead) (Nat.ne_of_gt hts.1.1)
      | cons l labels =>
          rw [List.forall_mem_cons] at hlabels
          have hcons : BitVec.ofNat 8 t.length :: (t ++ (encoded ts ++ List.replicate (n + 1) 0)) =
              BitVec.ofNat 8 l.length :: (l ++ wireName labels) := by
            simpa [encoded_cons, wireName] using h
          obtain ⟨hhead, htail⟩ := List.cons.inj hcons
          have hlt : l.length < 256 := Nat.lt_trans hlabels.1.2 (by decide)
          obtain ⟨rfl, hrest⟩ := List.append_inj htail (hbyte hts.1.2 hlt hhead)
          obtain ⟨rfl, hone⟩ := ih hts.2 hlabels.2 hrest
          exact ⟨rfl, hone⟩

/-- The block is a name for regular host names. -/
theorem beginsWithName_of_isRegular (h : IsRegular s) (hfits : s.length + 2 < 2147483648) :
    BeginsWithName (block s) (intLength s) := by
  have hnone : (s.splitOn dev).count [] = 0 :=
    List.count_eq_zero.mpr fun hmem => absurd (h [] hmem).1 (Nat.lt_irrefl 0)
  have hlen := length_encoded_tokens s
  have hblock : block s = wireName (s.splitOn dev) := by
    have hone : s.length + 2 - (encoded (tokens s)).length = 1 := by omega
    rw [block, hone, wireName_eq, tokens_of_isRegular h]
    rfl
  refine ⟨s.splitOn dev, h, ?_, ?_⟩
  · rw [← hblock, length_block, intLength_of_lt hfits]
  · rw [hblock, List.take_length]

/-- If the lengths fit, for no others. -/
theorem isRegular_of_beginsWithName (h : BeginsWithName (block s) (intLength s))
    (hfits : ¬ Overflows s) : IsRegular s ∧ s.length + 2 < 2147483648 := by
  obtain ⟨hpieces, hlt⟩ := not_or.mp hfits
  obtain ⟨labels, hlabels, hlen, hbytes⟩ := h
  rw [intLength_of_lt (by omega), Int.natCast_inj, ← length_block] at hlen
  rw [← hlen, List.take_length, block] at hbytes
  have hle := length_encoded_tokens s
  have htokens : ∀ l ∈ tokens s, 0 < l.length ∧ l.length < 256 := fun l hl =>
    ⟨pos_of_mem_tokens hl, by
      by_contra hlong
      exact hpieces ⟨l, List.mem_of_mem_filter hl, by omega⟩⟩
  obtain ⟨rfl, hone⟩ := eq_of_encoded_append htokens hlabels (by omega) hbytes
  have hnone : [] ∉ s.splitOn dev := List.count_eq_zero.mp (by omega)
  refine ⟨fun l hl => hlabels l ?_, by omega⟩
  exact List.mem_filter.mpr ⟨hl, by simpa using ne_of_mem_of_not_mem hl hnone⟩

theorem beginsWithName_iff (s : List Byte) :
    BeginsWithName (block s) (intLength s) ↔
      (s.length + 2 < 2147483648 ∧ IsRegular s) ∨
        (Overflows s ∧ BeginsWithName (block s) (intLength s)) := by
  constructor
  · intro h
    by_cases hover : Overflows s
    · exact .inr ⟨hover, h⟩
    · exact .inl (isRegular_of_beginsWithName h hover).symm
  · rintro (⟨hfits, hregular⟩ | ⟨-, h⟩)
    · exact beginsWithName_of_isRegular hregular hfits
    · exact h

/-! ## What `build_dns` reads and writes -/

/-- An access to the name or to the request. -/
inductive Access where
  | readName (i : Int)
  | writeRequest (i : Int)
deriving DecidableEq, Repr

/-- Inside `q->name[0..length)`, and inside `request[0..len)`. -/
def Access.InBounds (length len : Int) : Access → Prop
  | .readName i => 0 ≤ i ∧ i < length
  | .writeRequest i => 0 ≤ i ∧ i < len

/-- The copy of the header. -/
def headerAccesses : List Access := (List.range sizeofHead).map fun i : Nat => .writeRequest i

/-- The copy of the name. -/
def nameAccesses : List Access :=
  (List.range sizeofQuestion).flatMap fun i : Nat =>
    [.readName i, .writeRequest (sizeofHead + i)]

/-- The copies of the type and of the class, at `offset`. -/
def trailerAccesses (offset : Int) : List Access :=
  (List.range 4).map fun i : Nat => .writeRequest (offset + i)

/-- The accesses of `build_dns` for a name of `length` bytes. -/
def buildDnsAccesses (length : Int) : List Access :=
  headerAccesses ++ nameAccesses ++ trailerAccesses (sizeofHead + length)

/-- The value it returns. -/
def buildDnsOffset (length : Int) : Int := sizeofHead + length + 4

/-- Bytes that are not written are kept, and the offset is that of the
    accesses, if the length is that of the `int`. -/
theorem buildDns_frame {h : Head} {q : Question} {request request' : Ptr} {n : Nat}
    (hbuild : buildDns h q request = .ok (request', n)) :
    (n : Int) = buildDnsOffset q.length ∧
      ∀ i, Access.writeRequest (i : Nat) ∉ buildDnsAccesses q.length → request' i = request i := by
  cases hname : q.name with
  | none => simp [buildDns, hname] at hbuild
  | some name =>
      simp only [buildDns, hname] at hbuild
      obtain ⟨rfl, rfl⟩ := Prod.mk.inj (Except.ok.inj hbuild)
      refine ⟨rfl, fun i hi => ?_⟩
      simp only [buildDnsAccesses, headerAccesses, nameAccesses, trailerAccesses, List.mem_append,
        List.mem_map, List.mem_flatMap, List.mem_range, List.mem_cons, List.not_mem_nil,
        reduceCtorEq, false_or, or_false, Access.writeRequest.injEq, not_or, not_exists,
        not_and, sizeofHead, sizeofQuestion] at hi
      obtain ⟨⟨hhead, hcopy⟩, htrailer⟩ := hi
      have hbehind : 12 ≤ i := by
        by_contra hlt
        exact hhead i (by omega) rfl
      have hbehind' : 28 ≤ i := by
        by_contra hlt
        exact hcopy (i - 12) (by omega) (by omega)
      have hne : ∀ k < 4, i ≠ 12 + q.length + k := fun k hk heq =>
        htrailer k hk (by omega)
      have h₀ := hne 0 (by decide)
      have h₁ := hne 1 (by decide)
      have h₂ := hne 2 (by decide)
      have h₃ := hne 3 (by decide)
      have hcopied : sizeofHead + (name.bytes 0 sizeofQuestion).length ≤ i := by
        rw [Ptr.length_bytes]
        exact hbehind'
      simp only [sizeofHead] at hcopied ⊢
      simp (disch := omega) only [Ptr.store16_apply_of_ne, Ptr.storeBytes_apply_of_le, storeHead]

/-- The bytes of the name that are not read do not matter. -/
theorem buildDns_congr {h : Head} {q : Question} {name name' : Ptr} (request : Ptr)
    (hsame : ∀ i, Access.readName (i : Nat) ∈ buildDnsAccesses q.length → name i = name' i) :
    buildDns h { q with name := some name } request =
      buildDns h { q with name := some name' } request := by
  have hbytes : name.bytes 0 sizeofQuestion = name'.bytes 0 sizeofQuestion := by
    refine Ptr.bytes_congr fun i _ hi => hsame i ?_
    refine List.mem_append_left _ (List.mem_append_right _ ?_)
    exact List.mem_flatMap.mpr ⟨i, List.mem_range.mpr (by omega), List.mem_cons_self⟩
  simp only [buildDns, hbytes]

/-- All accesses are in bounds if the name has the 16 bytes that are read, and
    the request the 16 that are behind its name. -/
theorem buildDnsAccesses_inBounds_iff (length len : Int) :
    (∀ a ∈ buildDnsAccesses length, a.InBounds length len) ↔
      16 ≤ length ∧ length + 16 ≤ len := by
  simp only [buildDnsAccesses, headerAccesses, nameAccesses, trailerAccesses,
    List.forall_mem_append, List.forall_mem_map, List.forall_mem_flatMap, List.forall_mem_cons,
    List.mem_range, List.not_mem_nil, false_imp_iff, implies_true, and_true, Access.InBounds,
    sizeofHead, sizeofQuestion]
  constructor
  · rintro ⟨⟨-, hname⟩, htrailer⟩
    have hlast := (hname 15 (by decide)).1
    have hend := htrailer 3 (by decide)
    omega
  · rintro ⟨hname, hfits⟩
    exact ⟨⟨fun i hi => by omega, fun i hi => by omega⟩, fun i hi => by omega⟩

/-! ## Rejecting or encoding -/

/-- `question_create` reports an error, or the name is well formed and
    `build_dns` stays inside the name and inside the `len` bytes of the
    request. -/
def RejectsOrEncodes (env : Env) (hostname : List Byte) (len : Int) : Prop :=
  ∀ q₀, ∃ q ret, questionCreate env hostname q₀ = .ok (q, ret) ∧
    ((∃ e < 0, ret = some e) ∨
      (q.IsQname ∧ (∀ a ∈ buildDnsAccesses q.intLength, a.InBounds q.intLength len) ∧
        buildDnsOffset q.intLength ≤ len))

/-- With memory, `question_create` leaves the block and the length of the text
    in any structure. -/
theorem questionCreate_eq {env : Env} (s : List Byte) (q₀ : Question) (hmem : env.malloc = true)
    (hdup : env.strdup = true) :
    ∃ name, questionCreate env s q₀ =
        .ok (⟨some name, s.length + 2, htons 1, htons 1⟩, none) ∧
      name.bytes 0 (s.length + 2) = block s := by
  refine ⟨labelLoop s (env.heap.storeBytes 0 (List.replicate (s.length + 2) 0)) 0, ?_,
    bytes_labelLoop s env.heap⟩
  rw [questionCreate, if_neg (by rw [hmem]; decide)]
  show (if env.strdup = false then _ else _) = _
  rw [if_neg (by rw [hdup]; decide)]

/-- Both memories are there: the name is to be well formed and 16 bytes long,
    and the request 16 bytes longer. -/
theorem rejectsOrEncodes_iff_of_memory {env : Env} (s : List Byte) (len : Int)
    (hmem : env.malloc = true) (hdup : env.strdup = true) :
    RejectsOrEncodes env s len ↔
      16 ≤ intLength s ∧ intLength s + 16 ≤ len ∧ BeginsWithName (block s) (intLength s) := by
  constructor
  · intro h
    obtain ⟨name, hq, hname⟩ := questionCreate_eq s ⟨none, 0, 0, 0⟩ hmem hdup
    obtain ⟨q, ret, hq', hdone⟩ := h ⟨none, 0, 0, 0⟩
    obtain ⟨rfl, rfl⟩ := Prod.mk.inj (Except.ok.inj (hq.symm.trans hq'))
    rcases hdone with ⟨e, -, hret⟩ | ⟨⟨name', hname', hqname⟩, haccesses, -⟩
    · cases hret
    · obtain rfl := Option.some.inj hname'
      obtain ⟨hlong, hfits⟩ := (buildDnsAccesses_inBounds_iff _ _).mp haccesses
      exact ⟨hlong, hfits, hname ▸ hqname⟩
  · rintro ⟨hlong, hfits, hqname⟩ q₀
    obtain ⟨name, hq, hname⟩ := questionCreate_eq s q₀ hmem hdup
    refine ⟨_, _, hq, .inr ⟨⟨name, rfl, ?_⟩, ?_, ?_⟩⟩
    · exact hname.symm ▸ hqname
    · exact (buildDnsAccesses_inBounds_iff _ _).mpr ⟨hlong, hfits⟩
    · show (sizeofHead : Int) + intLength s + 4 ≤ len
      simp only [sizeofHead]
      omega

/-- Without memory for the name nothing is returned, and without memory for the
    copy of the text an error. -/
theorem rejectsOrEncodes_iff (env : Env) (s : List Byte) (len : Int) :
    RejectsOrEncodes env s len ↔
      env.malloc = true ∧ (env.strdup = false ∨
        (16 ≤ intLength s ∧ intLength s + 16 ≤ len ∧
          ((s.length + 2 < 2147483648 ∧ IsRegular s) ∨
            (Overflows s ∧ BeginsWithName (block s) (intLength s))))) := by
  cases hmem : env.malloc with
  | false =>
      refine iff_of_false (fun h => ?_) (by simp)
      obtain ⟨q, ret, hq, -⟩ := h ⟨none, 0, 0, 0⟩
      simp [questionCreate, hmem] at hq
  | true =>
      cases hdup : env.strdup with
      | false =>
          refine iff_of_true (fun q₀ => ?_) (by simp)
          have hq : questionCreate env s q₀ =
              .ok (⟨none, s.length + 2, htons 1, htons 1⟩, some (-3)) := by
            simp only [questionCreate, hmem, hdup, Bool.true_eq_false, if_false, if_true]
          exact ⟨_, _, hq, .inl ⟨-3, by decide, rfl⟩⟩
      | true =>
          rw [rejectsOrEncodes_iff_of_memory s len hmem hdup, ← beginsWithName_iff]
          simp

/-- `baidu.com` -/
def baidu : List Byte := [98, 97, 105, 100, 117, 46, 99, 111, 109]

/-- Of its 11 bytes, `build_dns` reads 16. -/
theorem baidu_overread : ¬ RejectsOrEncodes ⟨true, true, 0, fun _ => 0⟩ baidu 1024 := by
  rw [rejectsOrEncodes_iff_of_memory baidu 1024 rfl rfl]
  exact fun h => absurd h.1 (by decide)

end LinuxLearning.Dns
