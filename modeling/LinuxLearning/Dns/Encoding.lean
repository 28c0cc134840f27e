/-
  LinuxLearning.Dns.Encoding

  What a resolver reads in the query for a host name.  `build_dns` copies as
  many bytes of the name as a `question` structure has, 16, and goes on behind
  the whole name: from byte 28 on, a longer name is what the request held
  before.
-/

import LinuxLearning.Dns.Query

namespace LinuxLearning.Dns

open Lib Ustack

/-! ## Host names -/

/-- Labels separated by single dots. -/
def dotted : List (List Byte) → List Byte
  | [] => []
  | [label] => label
  | label :: labels => label ++ dev :: dotted labels

/-- A host name of labels without dots and NULs. -/
structure HostName where
  labels : List (List Byte)
  ne_nil : labels ≠ []
  isLabel : ∀ l ∈ labels, IsLabel l
  no_dot : ∀ l ∈ labels, dev ∉ l
  no_nul : ∀ l ∈ labels, 0 ∉ l
  length_le : (dotted labels).length ≤ 253

/-- Its text. -/
def HostName.text (host : HostName) : List Byte := dotted host.labels

theorem length_wireName_eq {labels : List (List Byte)} (h : labels ≠ []) :
    (wireName labels).length = (dotted labels).length + 2 := by
  induction labels with
  | nil => exact absurd rfl h
  | cons label labels ih =>
      cases labels with
      | nil => simp [wireName, dotted]
      | cons label' labels =>
          have hrest := ih (List.cons_ne_nil _ _)
          simp only [wireName, dotted, List.cons_append, List.length_cons, List.length_append]
            at hrest ⊢
          omega

/-! ## Memory -/

/-- A number that is swapped and stored at the end of what was written. -/
theorem bytes_store16_htons (p : Ptr) (off : Nat) (v : BitVec 16) :
    (p.store16 off (htons v)).bytes 0 (off + 2) = p.bytes 0 off ++ wire16 v := by
  have hne : off + 1 ≠ off := Nat.succ_ne_self off
  rw [Ptr.bytes_add, Nat.zero_add]
  congr 1
  · exact Ptr.bytes_congr fun i _ hi => Ptr.store16_apply_of_ne (by omega) (by omega)
  · rw [Ptr.bytes_cons, Ptr.bytes_cons]
    simp only [Ptr.store16, if_true, if_neg hne, htons, ntohs, BitVec.extractLsb'_append_eq_left,
      BitVec.extractLsb'_append_eq_right]
    rfl

theorem take_bytes (p : Ptr) (off n k : Nat) :
    (p.bytes off n).take k = p.bytes off (min k n) := by
  rw [Ptr.bytes, ← List.map_take, List.take_range, Ptr.bytes]

/-- Where `n` bytes were copied, there is what was copied, and behind it what
    was there. -/
theorem bytes_storeBytes_bytes (p q : Ptr) (off n len : Nat) :
    (p.storeBytes off (q.bytes 0 n)).bytes off len =
      (q.bytes 0 len).take n ++ p.bytes (off + n) (len - n) := by
  have hcopy := Ptr.bytes_storeBytes p off (q.bytes 0 n)
  rw [Ptr.length_bytes] at hcopy
  have hsplit : len = min len n + (len - n) := by omega
  have hfront := congrArg (List.take len) hcopy
  rw [take_bytes, take_bytes] at hfront
  have hbehind : (p.storeBytes off (q.bytes 0 n)).bytes (off + min len n) (len - n) =
      p.bytes (off + n) (len - n) := by
    rcases Nat.le_total len n with hle | hle
    · rw [Nat.sub_eq_zero_of_le hle]
      rfl
    · rw [Nat.min_eq_right hle]
      refine Ptr.bytes_congr fun i hi _ => Ptr.storeBytes_apply_of_le ?_
      rwa [Ptr.length_bytes]
  rw [hsplit, Ptr.bytes_add, ← hsplit, hfront, hbehind, take_bytes, Nat.min_comm]

/-! ## The name -/

/-- Up to the first dot, and from there on. -/
theorem span_label {l : List Byte} (hdot : dev ∉ l) (s : List Byte) :
    (l ++ s).takeWhile (· != dev) = l ++ s.takeWhile (· != dev) ∧
      (l ++ s).dropWhile (· != dev) = s.dropWhile (· != dev) := by
  have hl : ∀ b ∈ l, (b != dev) = true := fun b hb =>
    bne_iff_ne.mpr (ne_of_mem_of_not_mem hb hdot)
  exact ⟨List.takeWhile_append_of_pos hl, List.dropWhile_append_of_pos hl⟩

/-- `strtok` takes the first label off a host name. -/
theorem strtok_dotted {l : List Byte} {labels : List (List Byte)} (hpos : l ≠ [])
    (hdot : dev ∉ l) : strtok (dotted (l :: labels)) = some (l, dotted labels) := by
  obtain ⟨b, l, rfl⟩ := List.exists_cons_of_ne_nil hpos
  obtain ⟨hb, hl⟩ := not_or.mp (List.mem_cons.not.mp hdot)
  have hb' : (b == dev) = false := beq_false_of_ne (Ne.symm hb)
  cases labels with
  | nil =>
      obtain ⟨htake, hdrop⟩ := span_label hl []
      rw [List.append_nil] at htake hdrop
      simp [strtok, dotted, hb', htake, hdrop]
  | cons label labels =>
      obtain ⟨htake, hdrop⟩ := span_label hl (dev :: dotted (label :: labels))
      simp [strtok, dotted, hb', htake, hdrop]

/-- One turn of the loop, and its end. -/
theorem labelLoop_of_strtok {s temp rest : List Byte} (h : strtok s = some (temp, rest))
    (name : Ptr) (qname : Nat) : labelLoop s name qname =
      labelLoop rest ((name.store8 qname (BitVec.ofNat 8 temp.length)).storeBytes (qname + 1)
        (temp ++ [0])) (qname + 1 + temp.length) := by
  rw [labelLoop]
  split
  · rename_i hnone
    rw [h] at hnone
    cases hnone
  · rename_i hsome
    obtain ⟨rfl, rfl⟩ := Prod.mk.inj (Option.some.inj (h.symm.trans hsome))
    rfl

theorem labelLoop_nil (name : Ptr) (qname : Nat) : labelLoop [] name qname = name := by
  rw [labelLoop]
  split
  · rfl
  · rename_i hsome
    cases hsome

/-- What one turn stores: the length, the label, and a NUL that the next turn
    overwrites. -/
theorem bytes_turn (name : Ptr) (qname : Nat) (temp : List Byte) :
    ((name.store8 qname (BitVec.ofNat 8 temp.length)).storeBytes (qname + 1) (temp ++ [0])).bytes
        qname (temp.length + 2) = BitVec.ofNat 8 temp.length :: temp ++ [0] := by
  have hcopy := Ptr.bytes_storeBytes (name.store8 qname (BitVec.ofNat 8 temp.length)) (qname + 1)
    (temp ++ [0])
  rw [List.length_append, List.length_singleton] at hcopy
  rw [Ptr.bytes_cons, hcopy, Ptr.storeBytes_apply_of_lt (Nat.lt_succ_self _),
    Ptr.store8_apply_self]
  rfl

/-- The loop stores the wire form of the name, and nothing in front of it. -/
theorem labelLoop_dotted {labels : List (List Byte)} (hne : labels ≠ [])
    (hlabels : ∀ l ∈ labels, l ≠ [] ∧ dev ∉ l) : ∀ (name : Ptr) (qname : Nat),
    (labelLoop (dotted labels) name qname).bytes qname (wireName labels).length =
        wireName labels ∧
      ∀ i < qname, labelLoop (dotted labels) name qname i = name i := by
  induction labels with
  | nil => exact absurd rfl hne
  | cons l labels ih =>
      intro name qname
      rw [List.forall_mem_cons] at hlabels
      have hturn := bytes_turn name qname l
      have hbefore : ∀ i < qname,
          ((name.store8 qname (BitVec.ofNat 8 l.length)).storeBytes (qname + 1) (l ++ [0])) i =
            name i := fun i hi => by
        rw [Ptr.storeBytes_apply_of_lt (by omega), Ptr.store8_apply_of_ne (Nat.ne_of_lt hi)]
      rw [labelLoop_of_strtok (strtok_dotted hlabels.1.1 hlabels.1.2)]
      cases labels with
      | nil =>
          rw [show dotted [] = [] from rfl, labelLoop_nil]
          refine ⟨?_, hbefore⟩
          have hlen : (wireName [l]).length = l.length + 2 := by simp [wireName]
          rw [hlen, hturn]
          rfl
      | cons l' labels =>
          obtain ⟨hrest, hkept⟩ := ih (List.cons_ne_nil _ _) hlabels.2
            ((name.store8 qname (BitVec.ofNat 8 l.length)).storeBytes (qname + 1) (l ++ [0]))
            (qname + 1 + l.length)
          refine ⟨?_, fun i hi => (hkept i (by omega)).trans (hbefore i hi)⟩
          have hlen : (wireName (l :: l' :: labels)).length =
              l.length + 1 + (wireName (l' :: labels)).length := by
            rw [wireName, List.length_append, List.length_cons]
          -- the NUL of this turn is where the next one stores its length
          rw [Ptr.bytes_add _ _ (l.length + 1) 1] at hturn
          have hfront := (List.append_inj hturn (by simp)).1
          have hassoc : qname + (l.length + 1) = qname + 1 + l.length := by omega
          rw [hlen, Ptr.bytes_add, hassoc, hrest, Ptr.bytes_congr fun i _ hi => hkept i (by omega),
            hfront]
          rfl

/-! ## The message -/

/-- What `header_creater` leaves in the request. -/
theorem bytes_storeHead (env : Env) (request : Ptr) :
    (storeHead request (headerCreater env ⟨0, 0, 0, 0, 0, 0⟩)).bytes 0 12 =
      wire16 (ntohs env.random) ++ wire16 0x0100 ++ wire16 1 ++ wire16 0 ++ wire16 0 ++
        wire16 0 := by
  have hzero : ntohs 0 = 0 := by decide
  have hhead : headerCreater env ⟨0, 0, 0, 0, 0, 0⟩ =
      ⟨htons (ntohs env.random), htons 0x0100, htons 1, htons 0, htons 0, htons 0⟩ := by
    simp only [htons, ntohs_ntohs, hzero]
    rfl
  rw [hhead, storeHead, bytes_store16_htons, bytes_store16_htons, bytes_store16_htons,
    bytes_store16_htons, bytes_store16_htons, bytes_store16_htons]
  rfl

/-- The message that the query is to be. -/
def expected (host : HostName) (id : BitVec 16) : DnsMessage where
  id := id
  flags := 0x0100
  questions := [⟨host.labels, 1, 1⟩]
  answers := 0
  authorities := 0
  additional := 0

theorem HostName.length_wire (host : HostName) :
    (wireName host.labels).length = host.text.length + 2 := length_wireName_eq host.ne_nil

theorem isValid_expected (host : HostName) (id : BitVec 16) : (expected host id).IsValid where
  count := show 1 < 65536 by decide
  questions := by
    rw [expected, List.forall_mem_singleton]
    refine ⟨host.isLabel, ?_⟩
    show (wireName host.labels).length ≤ 255
    rw [host.length_wire]
    exact Nat.add_le_add_right host.length_le 2

/-- The bytes that are returned: the name is that of the block up to its 16th
    byte, and what the request held behind it. -/
theorem query_bytes {env : Env} (host : HostName) (request : Ptr) (hmem : env.malloc = true)
    (hdup : env.strdup = true) :
    ∃ request', query env host.text request = .ok (request', 12 + (host.text.length + 2) + 4) ∧
      request'.bytes 0 (12 + (host.text.length + 2) + 4) =
        wire16 (ntohs env.random) ++ wire16 0x0100 ++ wire16 1 ++ wire16 0 ++ wire16 0 ++
          wire16 0 ++ ((wireName host.labels).take 16 ++
            request.bytes 28 (host.text.length + 2 - 16)) ++ wire16 1 ++ wire16 1 := by
  obtain ⟨name, hq, hname⟩ : ∃ name,
      questionCreate env host.text ⟨none, 0, 0, 0⟩ =
        .ok (⟨some name, host.text.length + 2, htons 1, htons 1⟩, none) ∧
      name.bytes 0 (host.text.length + 2) = wireName host.labels := by
    refine ⟨_, by simp only [questionCreate, hmem, hdup, Bool.true_eq_false, if_false]; rfl, ?_⟩
    rw [← host.length_wire]
    exact (labelLoop_dotted host.ne_nil (fun l hl => ⟨List.length_pos_iff.mp (host.isLabel l hl).1,
      host.no_dot l hl⟩) _ 0).1
  refine ⟨_, by simp only [query, hq, buildDns, Bind.bind, Except.bind]; rfl, ?_⟩
  have hhead := bytes_storeHead env request
  generalize hstored : storeHead request (headerCreater env ⟨0, 0, 0, 0, 0, 0⟩) = stored at hhead ⊢
  have hfront : (stored.storeBytes sizeofHead (name.bytes 0 sizeofQuestion)).bytes 0 sizeofHead =
      stored.bytes 0 12 :=
    Ptr.bytes_congr fun i _ hi => Ptr.storeBytes_apply_of_lt (by omega)
  have hbehind : stored.bytes 28 (host.text.length + 2 - 16) =
      request.bytes 28 (host.text.length + 2 - 16) := by
    refine Ptr.bytes_congr fun i hi _ => ?_
    rw [← hstored]
    simp (disch := omega) only [storeHead, Ptr.store16_apply_of_ne]
  -- 16 bytes are copied, and the type goes behind the whole name
  have hcopied := bytes_storeBytes_bytes stored name sizeofHead sizeofQuestion
    (host.text.length + 2)
  rw [hname] at hcopied
  show Ptr.bytes _ 0 (sizeofHead + (host.text.length + 2) + 2 + 2) = _
  rw [bytes_store16_htons, bytes_store16_htons, Ptr.bytes_add, Nat.zero_add, hfront, hhead, hcopied]
  exact congrArg (fun behind => _ ++ (_ ++ behind) ++ _ ++ _) hbehind

/-- Without memory nothing is returned. -/
theorem query_fails {env : Env} (hostname : List Byte) (request : Ptr)
    (h : ¬ (env.malloc = true ∧ env.strdup = true)) :
    query env hostname request = .error .nullPointer := by
  cases hmem : env.malloc with
  | false => simp [query, questionCreate, hmem, Bind.bind, Except.bind]
  | true =>
      have hdup : env.strdup = false := by simpa [hmem] using h
      simp [query, questionCreate, hmem, hdup, buildDns, Bind.bind, Except.bind]

/-! ## Faithfulness -/

/-- The bytes that are returned are the query for the host name, and nothing
    else. -/
def Faithful (env : Env) (host : HostName) (request : Ptr) : Prop :=
  ∃ request' n id, query env host.text request = .ok (request', n) ∧
    DnsMessage.read (request'.bytes 0 n) = some (expected host id, [])

/-- With memory, they are if the request held the rest of the name already. -/
theorem faithful_iff_rest {env : Env} (host : HostName) (request : Ptr) (hmem : env.malloc = true)
    (hdup : env.strdup = true) :
    Faithful env host request ↔
      request.bytes 28 (host.text.length + 2 - 16) = (wireName host.labels).drop 16 := by
  obtain ⟨request', hquery, hbytes⟩ := query_bytes host request hmem hdup
  have hsplit := List.take_append_drop 16 (wireName host.labels)
  have hwire : ∀ id, (expected host id).wire ++ [] =
      wire16 id ++ wire16 0x0100 ++ wire16 1 ++ wire16 0 ++ wire16 0 ++ wire16 0 ++
        ((wireName host.labels).take 16 ++ (wireName host.labels).drop 16) ++ wire16 1 ++
          wire16 1 := by
    intro id
    rw [hsplit]
    simp [expected, DnsMessage.wire, DnsQuestion.wire]
  constructor
  · rintro ⟨request'', n, id, hquery', hread⟩
    obtain ⟨rfl, rfl⟩ := Prod.mk.inj (Except.ok.inj (hquery.symm.trans hquery'))
    have hsame := (DnsMessage.read_eq_some_iff.mp hread).2
    rw [hbytes, hwire] at hsame
    -- the headers have the same length, and so have the parts of the names
    have hname := (List.append_cancel_right (List.append_cancel_right hsame))
    have hrest := (List.append_inj hname (by simp [wire16])).2
    exact List.append_cancel_left hrest
  · intro hrest
    refine ⟨request', _, ntohs env.random, hquery, DnsMessage.read_eq_some_iff.mpr
      ⟨isValid_expected host _, ?_⟩⟩
    rw [hbytes, hwire, hrest]

/-- In general they are if there was memory too. -/
theorem query_faithful_iff (env : Env) (host : HostName) (request : Ptr) :
    Faithful env host request ↔
      (env.malloc = true ∧ env.strdup = true) ∧
        request.bytes 28 (host.text.length + 2 - 16) = (wireName host.labels).drop 16 := by
  by_cases hmem : env.malloc = true ∧ env.strdup = true
  · rw [faithful_iff_rest host request hmem.1 hmem.2, and_iff_right hmem]
  · refine iff_of_false ?_ fun h => hmem h.1
    rintro ⟨request', n, id, hquery, -⟩
    rw [query_fails _ _ hmem] at hquery
    cases hquery

/-- The last byte of a name before its zero is one of a label. -/
theorem wireName_eq_concat {labels : List (List Byte)} (hne : labels ≠ [])
    (hlabels : ∀ l ∈ labels, l ≠ [] ∧ 0 ∉ l) :
    ∃ front b, b ≠ 0 ∧ wireName labels = front ++ [b, 0] := by
  induction labels with
  | nil => exact absurd rfl hne
  | cons l labels ih =>
      rw [List.forall_mem_cons] at hlabels
      cases labels with
      | nil =>
          obtain ⟨l', b, rfl⟩ := (List.eq_nil_or_concat l).resolve_left hlabels.1.1
          rw [List.concat_eq_append] at hlabels ⊢
          refine ⟨BitVec.ofNat 8 (l' ++ [b]).length :: l', b, ?_, by simp [wireName]⟩
          rintro rfl
          exact hlabels.1.2 (List.mem_append_right _ (List.mem_singleton_self _))
      | cons l' labels =>
          obtain ⟨front, b, hb, hwire⟩ := ih (List.cons_ne_nil _ _) hlabels.2
          exact ⟨BitVec.ofNat 8 l.length :: l ++ front, b, hb, by
            rw [wireName, hwire, List.append_assoc]⟩

/-- In the cleared array of `dns_udp`, host names of at most 15 bytes are
    encoded. -/
theorem faithful_cleared_iff {env : Env} (host : HostName) (hmem : env.malloc = true)
    (hdup : env.strdup = true) :
    Faithful env host (fun _ => 0) ↔ host.text.length ≤ 15 := by
  rw [faithful_iff_rest host _ hmem hdup]
  obtain ⟨front, b, hb, hwire⟩ := wireName_eq_concat host.ne_nil fun l hl =>
    ⟨List.length_pos_iff.mp (host.isLabel l hl).1, host.no_nul l hl⟩
  have hlen := host.length_wire
  rw [hwire, List.length_append, List.length_cons, List.length_singleton] at hlen
  have hzeros : Ptr.bytes (fun _ => 0) 28 (host.text.length + 2 - 16) =
      List.replicate (host.text.length + 2 - 16) 0 := List.map_const' ..|>.trans (by simp)
  rw [hzeros, hwire]
  constructor
  · intro hrest
    by_contra hlong
    rw [List.drop_append_of_le_length (by omega)] at hrest
    -- the last byte of the last label is not copied, and it is not zero
    have hmem : b ∈ List.replicate (host.text.length + 2 - 16) (0 : Byte) := by
      rw [hrest]
      simp
    exact hb (List.eq_of_mem_replicate hmem)
  · intro hshort
    rcases Nat.lt_or_eq_of_le hshort with hlt | heq
    · have hnone : host.text.length + 2 - 16 = 0 := by omega
      rw [hnone, List.drop_eq_nil_of_le (by simp; omega)]
      rfl
    · -- only the zero at the end of the name is not copied
      have hfront : (front ++ [b]).length = 16 := by
        rw [List.length_append, List.length_singleton]
        omega
      rw [heq, List.append_cons front b [0], List.drop_left' hfront]
      rfl

/-- `www.wikipedia.org` -/
def wikipedia : HostName where
  labels := [[119, 119, 119], [119, 105, 107, 105, 112, 101, 100, 105, 97], [111, 114, 103]]
  ne_nil := List.cons_ne_nil _ _
  isLabel := by decide
  no_dot := by decide
  no_nul := by decide
  length_le := by decide

/-- The last two bytes of its name are not copied to the cleared array of
    `dns_udp`. -/
theorem wikipedia_not_encoded :
    ¬ Faithful ⟨true, true, 0x1234, fun _ => 0⟩ wikipedia (fun _ => 0) := by
  rw [faithful_cleared_iff wikipedia rfl rfl]
  decide

end LinuxLearning.Dns
