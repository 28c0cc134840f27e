/-
  LinuxLearning.ContactBook.Splitter

  `contact_load` on any file.  `FILE_MSG` looks for a comma without regard to
  the length of the line and ends neither of its arrays with a NUL, and the
  arrays are the same for all lines: a line is safe if it has a comma, fields
  that fit, and neither field is shorter than those of the lines before it.
-/

import LinuxLearning.ContactBook.Failures

namespace LinuxLearning.ContactBook

open Lib

variable {l l' : Locals} {line nm ph name phone : List UInt8} {lines : List (List UInt8)}

/-! ## What `FILE_MSG` reads and writes -/

/-- An access to an array of `FILE_MSG`. -/
inductive Access where
  | readBuf (i : Nat)
  | writeName (j : Nat)
  | writePhone (j : Nat)
deriving DecidableEq, Repr

/-- Inside the first `len` bytes of the buffer, and inside the two arrays. -/
def Access.InBounds (len : Nat) : Access → Prop
  | .readBuf i => i < len
  | .writeName j => j < nameLength
  | .writePhone j => j < nameLength

/-- The accesses of the first loop on the bytes from `buf[i]` on. -/
def nameAccesses : List UInt8 → Nat → List Access
  | [], i => [.readBuf i]
  | b :: rest, i =>
      .readBuf i :: if b = comma then [] else .writeName i :: nameAccesses rest (i + 1)

/-- The accesses of the second loop, from `i` on, for `count` turns. -/
def phoneAccesses (i : Nat) : Nat → Nat → List Access
  | _, 0 => []
  | j, count + 1 => .readBuf (i + j) :: .writePhone j :: phoneAccesses i (j + 1) count

/-- The accesses of `FILE_MSG(buf,length,name,phone)`. -/
def fileMsgAccesses (buf : List UInt8) (length : Nat) : List Access :=
  let i := buf.idxOf comma + 1
  nameAccesses buf 0 ++ phoneAccesses i 0 (length - i)

theorem nameAccesses_inBounds_iff (buf : List UInt8) (len i : Nat) :
    (∀ a ∈ nameAccesses buf i, a.InBounds len) ↔
      i + buf.idxOf comma < len ∧ (buf.idxOf comma = 0 ∨ i + buf.idxOf comma ≤ nameLength) := by
  induction buf generalizing i with
  | nil => simp [nameAccesses, Access.InBounds]
  | cons b rest ih =>
      by_cases hb : b = comma
      · subst hb
        simp [nameAccesses, Access.InBounds]
      · have hidx : (b :: rest).idxOf comma = rest.idxOf comma + 1 := by
          rw [List.idxOf_cons, beq_false_of_ne hb]
          rfl
        rw [hidx, nameAccesses, if_neg hb, List.forall_mem_cons, List.forall_mem_cons, ih]
        simp only [Access.InBounds]
        omega

theorem phoneAccesses_inBounds_iff (len i j count : Nat) :
    (∀ a ∈ phoneAccesses i j count, a.InBounds len) ↔
      count = 0 ∨ i + j + count ≤ len ∧ j + count ≤ nameLength := by
  induction count generalizing j with
  | zero => simp [phoneAccesses]
  | succ count ih =>
      rw [phoneAccesses, List.forall_mem_cons, List.forall_mem_cons, ih]
      simp only [Access.InBounds]
      omega

theorem fileMsgAccesses_inBounds_iff (buf : List UInt8) (len : Nat) :
    (∀ a ∈ fileMsgAccesses buf len, a.InBounds len) ↔
      buf.idxOf comma < len ∧ buf.idxOf comma ≤ nameLength ∧
        len - (buf.idxOf comma + 1) ≤ nameLength := by
  simp only [fileMsgAccesses]
  rw [List.forall_mem_append, nameAccesses_inBounds_iff, phoneAccesses_inBounds_iff]
  omega

/-! ## The fields of a line -/

/-- What `strlen` counts of a line. -/
def textOf (line : List UInt8) : List UInt8 := untilNul line

/-- What is in front of the first comma. -/
def nameOf (line : List UInt8) : List UInt8 := (textOf line).takeWhile (· ≠ comma)

/-- What is behind it. -/
def phoneOf (line : List UInt8) : List UInt8 := ((textOf line).dropWhile (· ≠ comma)).drop 1

/-- A line `name,phone`, with or without the line feed. -/
def HasForm (line : List UInt8) : Prop :=
  ∃ name phone, (textOf line = name ++ comma :: phone ∨
      textOf line = name ++ comma :: (phone ++ [newline])) ∧
    comma ∉ name ∧ 1 ≤ name.length ∧ name.length ≤ 19 ∧ phone.length ≤ 11

theorem comma_notMem_nameOf (line : List UInt8) : comma ∉ nameOf line := by
  intro hmem
  simpa using List.mem_takeWhile_imp hmem

theorem nul_notMem_textOf (line : List UInt8) : 0 ∉ textOf line := nul_notMem_untilNul line

theorem nul_notMem_nameOf (line : List UInt8) : 0 ∉ nameOf line := fun hmem =>
  nul_notMem_textOf line ((List.takeWhile_prefix _).subset hmem)

theorem nul_notMem_phoneOf (line : List UInt8) : 0 ∉ phoneOf line := fun hmem =>
  nul_notMem_textOf line
    (((List.drop_suffix _ _).trans (List.dropWhile_suffix _)).subset hmem)

/-- A line with a comma is its two fields. -/
theorem textOf_eq (h : comma ∈ textOf line) :
    textOf line = nameOf line ++ comma :: phoneOf line := by
  have hsplit := List.takeWhile_append_dropWhile (p := (· ≠ comma)) (l := textOf line)
  obtain ⟨b, rest, hrest⟩ : ∃ b rest, (textOf line).dropWhile (· ≠ comma) = b :: rest := by
    refine List.exists_cons_of_ne_nil fun hnil => ?_
    have hall := List.dropWhile_eq_nil_iff.mp hnil comma h
    simp at hall
  have hb : b = comma := by
    have hhead := List.head_dropWhile_not (p := (· ≠ comma)) (l := textOf line)
      (by rw [hrest]; simp)
    simp only [hrest, List.head_cons] at hhead
    simpa using hhead
  have hphone : phoneOf line = rest := by
    rw [phoneOf, hrest]
    rfl
  rw [hrest, hb] at hsplit
  rw [hphone]
  exact hsplit.symm

/-- The fields are determined by any such decomposition. -/
theorem fields_unique (hname : comma ∉ name) (h : textOf line = name ++ comma :: phone) :
    nameOf line = name ∧ phoneOf line = phone := by
  have hall : ∀ b ∈ name, (b ≠ comma : Bool) = true := fun b hb => by
    simpa using fun heq : b = comma => hname (heq ▸ hb)
  rw [nameOf, phoneOf, h, List.takeWhile_append_of_pos hall, List.dropWhile_append_of_pos hall]
  simp

/-- The form of a line, by its fields. -/
theorem hasForm_iff (h : comma ∈ textOf line) :
    HasForm line ↔ 1 ≤ (nameOf line).length ∧ (nameOf line).length ≤ 19 ∧
      ((phoneOf line).length ≤ 11 ∨
        ∃ phone, phoneOf line = phone ++ [newline] ∧ phone.length ≤ 11) := by
  constructor
  · rintro ⟨name, phone, htext, hcomma, hpos, hle, hphone⟩
    rcases htext with htext | htext
    · obtain ⟨rfl, rfl⟩ := fields_unique hcomma htext
      exact ⟨hpos, hle, .inl hphone⟩
    · obtain ⟨rfl, hfeed⟩ := fields_unique hcomma htext
      exact ⟨hpos, hle, .inr ⟨phone, hfeed, hphone⟩⟩
  · rintro ⟨hpos, hle, hphone | ⟨phone, hfeed, hphone⟩⟩
    · exact ⟨_, _, .inl (textOf_eq h), comma_notMem_nameOf line, hpos, hle, hphone⟩
    · exact ⟨_, phone, .inr (hfeed ▸ textOf_eq h), comma_notMem_nameOf line, hpos, hle, hphone⟩

/-! ## One line -/

/-- The buffer behind `fgets`. -/
def Locals.filled (l : Locals) (line : List UInt8) : List UInt8 :=
  (overwrite l.buffer (line ++ [0])).toList

/-- What is to hold of a line that is read with these arrays. -/
structure LineSafe (l : Locals) (line : List UInt8) : Prop where
  accesses : ∀ a ∈ fileMsgAccesses (l.filled line) (strlen (l.filled line)),
    a.InBounds (strlen (l.filled line))
  selective : (∃ l', l.readLine line = .ok (0, l')) ↔ HasForm line
  /-- The contact has the fields of the line, and no other line's. -/
  stored : ∀ l', l.readLine line = .ok (0, l') →
    IsCString l'.toPerson.name.toList (nameOf line) ∧
      IsCString l'.toPerson.phone.toList (phoneOf line)

/-- A line with a comma, a name of 1 to 19 and a phone of at most 11 bytes, the
    line feed counted in. -/
structure LineFits (line : List UInt8) : Prop where
  comma : comma ∈ textOf line
  name_pos : 1 ≤ (nameOf line).length
  name_le : (nameOf line).length ≤ 19
  phone_le : (phoneOf line).length ≤ 11

/-- The arrays begin with these fields, and are zero behind them. -/
structure Clean (l : Locals) (nm ph : List UInt8) : Prop where
  name : l.tempName.toList = nm ++ List.replicate (nameLength - nm.length) 0
  phone : l.tempPhone.toList = ph ++ List.replicate (nameLength - ph.length) 0
  name_nul : 0 ∉ nm
  phone_nul : 0 ∉ ph
  name_le : nm.length ≤ nameLength
  phone_le : ph.length ≤ nameLength

theorem clean_zero : Clean .zero [] [] where
  name := by simp [Locals.zero]
  phone := by simp [Locals.zero]
  name_nul := List.not_mem_nil
  phone_nul := List.not_mem_nil
  name_le := Nat.zero_le _
  phone_le := Nat.zero_le _

/-- The buffer begins with the text of the line. -/
theorem filled_eq (l : Locals) (hlen : line.length < bufferSize) :
    ∃ rest, l.filled line = textOf line ++ 0 :: rest := by
  have hbuf : l.filled line = line ++ 0 :: l.buffer.toList.drop (line ++ [0]).length := by
    rw [Locals.filled, toList_overwrite _ (by simpa using Nat.succ_le_of_lt hlen),
      List.append_assoc, List.singleton_append]
  have hnul : 0 ∈ l.filled line := by simp [hbuf]
  obtain ⟨rest, hrest⟩ := exists_untilNul_append hnul
  exact ⟨rest, by rwa [hbuf, untilNul_append_nul, ← hbuf] at hrest⟩

theorem strlen_filled (l : Locals) (hlen : line.length < bufferSize) :
    strlen (l.filled line) = (textOf line).length := by
  obtain ⟨rest, hrest⟩ := filled_eq l hlen
  rw [hrest, strlen_append (nul_notMem_textOf line)]

/-- The comma that `FILE_MSG` finds is one of the line just if there is one in
    the line; then it is the first. -/
theorem idxOf_filled (l : Locals) (hlen : line.length < bufferSize) :
    (l.filled line).idxOf comma < (textOf line).length ↔ comma ∈ textOf line := by
  obtain ⟨rest, hrest⟩ := filled_eq l hlen
  rw [hrest, List.idxOf_append]
  split
  · rename_i hmem
    exact iff_of_true (List.idxOf_lt_length_of_mem hmem) hmem
  · rename_i hmem
    exact iff_of_false (by omega) hmem

theorem idxOf_filled_eq (l : Locals) (hlen : line.length < bufferSize)
    (hcomma : comma ∈ textOf line) : (l.filled line).idxOf comma = (nameOf line).length := by
  obtain ⟨rest, hrest⟩ := filled_eq l hlen
  rw [hrest, List.idxOf_append_of_mem hcomma, textOf_eq hcomma,
    List.idxOf_append_of_notMem (comma_notMem_nameOf line), List.idxOf_cons_self, Nat.add_zero]

/-- A line with a comma and fields that fit goes to the front of the arrays. -/
theorem readLine_fields (l : Locals) (hlen : line.length < bufferSize)
    (hcomma : comma ∈ textOf line) (hname : (nameOf line).length ≤ nameLength)
    (hphone : (phoneOf line).length ≤ nameLength) :
    ∃ l', l.readLine line = .ok (0, l') ∧
      l'.tempName.toList = nameOf line ++ l.tempName.toList.drop (nameOf line).length ∧
      l'.tempPhone.toList = phoneOf line ++ l.tempPhone.toList.drop (phoneOf line).length := by
  obtain ⟨rest, hrest⟩ := filled_eq l hlen
  have hsplit : l.filled line = nameOf line ++ comma :: phoneOf line ++ 0 :: rest := by
    rw [hrest, ← textOf_eq hcomma]
  obtain ⟨v, w, hmsg, hv, hw⟩ := fileMsg_line hsplit (comma_notMem_nameOf line) hname hphone
    l.tempName l.tempPhone
  refine ⟨⟨overwrite l.buffer (line ++ [0]), v, w⟩, ?_, hv, hw⟩
  have hstrlen : strlen (overwrite l.buffer (line ++ [0])).toList =
      (nameOf line ++ comma :: phoneOf line).length := by
    rw [← textOf_eq hcomma]
    exact strlen_filled l hlen
  simp only [Locals.readLine, hstrlen, hmsg, Bind.bind, Except.bind, Pure.pure, Except.pure]

/-- The zeros behind an array's front that reaches as far as the one before. -/
theorem drop_front {n : Nat} (hle : nm.length ≤ name.length) :
    (nm ++ List.replicate (n - nm.length) (0 : UInt8)).drop name.length =
      List.replicate (n - name.length) 0 := by
  rw [List.drop_append, List.drop_of_length_le hle, List.nil_append, List.drop_replicate]
  congr 1
  omega

/-- `FILE_MSG` stays inside its arrays just if there is a comma, and neither
    field is longer than an array. -/
theorem accesses_filled_iff (l : Locals) (hlen : line.length < bufferSize) :
    (∀ a ∈ fileMsgAccesses (l.filled line) (strlen (l.filled line)),
      a.InBounds (strlen (l.filled line))) ↔ comma ∈ textOf line ∧
        (nameOf line).length ≤ nameLength ∧ (phoneOf line).length ≤ nameLength := by
  rw [fileMsgAccesses_inBounds_iff, strlen_filled l hlen, idxOf_filled l hlen]
  refine and_congr_right fun hcomma => ?_
  have htext := congrArg List.length (textOf_eq hcomma)
  rw [List.length_append, List.length_cons] at htext
  rw [idxOf_filled_eq l hlen hcomma]
  refine and_congr_right fun _ => ?_
  omega

/-- The contact has the fields just if they cover what the arrays held, and
    leave room for the NUL. -/
theorem Clean.stored_iff {l' : Locals} (h : Clean l nm ph)
    (hn : l'.tempName.toList = nameOf line ++ l.tempName.toList.drop (nameOf line).length)
    (hp : l'.tempPhone.toList = phoneOf line ++ l.tempPhone.toList.drop (phoneOf line).length) :
    (IsCString l'.toPerson.name.toList (nameOf line) ∧
      IsCString l'.toPerson.phone.toList (phoneOf line)) ↔
      (nm.length ≤ (nameOf line).length ∧ (nameOf line).length < nameLength) ∧
      (ph.length ≤ (phoneOf line).length ∧ (phoneOf line).length < phoneLength) := by
  have hname : l'.toPerson.name.toList = _ := hn
  rw [hname, toList_phone, hp, isCString_take_iff, h.name, h.phone,
    isCString_over_iff (nul_notMem_nameOf line) h.name_nul,
    isCString_over_iff (nul_notMem_phoneOf line) h.phone_nul]
  have := h.name_le
  have := h.phone_le
  simp only [nameLength, phoneLength] at *
  omega

/-- A line read with clean arrays is safe just if it fits and its fields are
    not shorter than what the arrays hold. -/
theorem Clean.lineSafe_iff (h : Clean l nm ph) (hlen : line.length < bufferSize) :
    LineSafe l line ↔ LineFits line ∧ nm.length ≤ (nameOf line).length ∧
      ph.length ≤ (phoneOf line).length := by
  constructor
  · intro hsafe
    obtain ⟨hcomma, hname, hphone⟩ := (accesses_filled_iff l hlen).mp hsafe.accesses
    obtain ⟨l', hread, hn, hp⟩ := readLine_fields l hlen hcomma hname hphone
    obtain ⟨⟨hnm, -⟩, hph, hlt⟩ := (h.stored_iff hn hp).mp (hsafe.stored l' hread)
    obtain ⟨hpos, hle, -⟩ := (hasForm_iff hcomma).mp (hsafe.selective.mp ⟨l', hread⟩)
    exact ⟨⟨hcomma, hpos, hle, Nat.le_of_lt_succ hlt⟩, hnm, hph⟩
  · rintro ⟨hfits, hnm, hph⟩
    have hname : (nameOf line).length ≤ nameLength := hfits.name_le.trans (by decide)
    have hphone : (phoneOf line).length ≤ nameLength := hfits.phone_le.trans (by decide)
    obtain ⟨l', hread, hn, hp⟩ := readLine_fields l hlen hfits.comma hname hphone
    refine ⟨(accesses_filled_iff l hlen).mpr ⟨hfits.comma, hname, hphone⟩,
      iff_of_true ⟨l', hread⟩ ?_, fun l₂ hl₂ => ?_⟩
    · exact (hasForm_iff hfits.comma).mpr ⟨hfits.name_pos, hfits.name_le, .inl hfits.phone_le⟩
    · obtain rfl : l₂ = l' := by simpa using hl₂.symm.trans hread
      exact (h.stored_iff hn hp).mpr ⟨⟨hnm, Nat.lt_succ_of_le hfits.name_le⟩, hph,
        Nat.lt_succ_of_le hfits.phone_le⟩

/-- A safe line leaves the arrays clean again. -/
theorem Clean.readLine (h : Clean l nm ph) (hlen : line.length < bufferSize)
    (hsafe : LineSafe l line) :
    ∃ l', l.readLine line = .ok (0, l') ∧ Clean l' (nameOf line) (phoneOf line) := by
  obtain ⟨hcomma, hname, hphone⟩ := (accesses_filled_iff l hlen).mp hsafe.accesses
  obtain ⟨l', hread, hn, hp⟩ := readLine_fields l hlen hcomma hname hphone
  obtain ⟨-, hnm, hph⟩ := (h.lineSafe_iff hlen).mp hsafe
  exact ⟨l', hread, by rw [hn, h.name, drop_front hnm], by rw [hp, h.phone, drop_front hph],
    nul_notMem_nameOf line, nul_notMem_phoneOf line, hname, hphone⟩

/-! ## A file -/

/-- Every line that `contact_load` reads is safe with the arrays that it is
    read with. -/
def SafeFrom (l : Locals) (lines : List (List UInt8)) : Prop :=
  ∀ pre line post, lines = pre ++ line :: post → ∀ l', arraysAfter l pre = .ok l' → LineSafe l' line

/-- Loading a file is safe and selective. -/
def SafeAndSelective (content : List UInt8) : Prop :=
  SafeFrom .zero (fgetsLines bufferSize content)

/-- Neither field of the second line is shorter than that of the first. -/
def NotShorter (line line' : List UInt8) : Prop :=
  (nameOf line).length ≤ (nameOf line').length ∧ (phoneOf line).length ≤ (phoneOf line').length

theorem safeFrom_cons_iff :
    SafeFrom l (line :: lines) ↔ LineSafe l line ∧
      ∀ ret l', l.readLine line = .ok (ret, l') → SafeFrom l' lines := by
  constructor
  · intro hsafe
    refine ⟨hsafe [] line lines rfl l rfl, fun ret l' hread pre line' post heq l₂ hl₂ => ?_⟩
    exact hsafe (line :: pre) line' post (by rw [heq]; rfl) l₂
      (by rw [arraysAfter_cons hread, hl₂])
  · rintro ⟨hline, hrest⟩ pre line' post heq l₂ hl₂
    cases pre with
    | nil =>
        obtain ⟨rfl, rfl⟩ := List.cons.inj heq
        obtain rfl : l = l₂ := by simpa [arraysAfter] using hl₂
        exact hline
    | cons first pre =>
        obtain ⟨rfl, rfl⟩ := List.cons.inj heq
        rcases readLine_ok l line with ⟨x, hfault, -⟩ | ⟨l', hread⟩
        · rw [arraysAfter_fault hfault] at hl₂
          cases hl₂
        · rw [arraysAfter_cons hread] at hl₂
          exact hrest 0 l' hread pre line' post rfl l₂ hl₂

theorem safeFrom_iff (hlens : ∀ line ∈ lines, line.length < bufferSize) :
    ∀ {l : Locals} {nm ph : List UInt8}, Clean l nm ph →
      (SafeFrom l lines ↔ (∀ line ∈ lines, LineFits line ∧ nm.length ≤ (nameOf line).length ∧
        ph.length ≤ (phoneOf line).length) ∧ lines.Pairwise NotShorter) := by
  induction lines with
  | nil =>
      intro l nm ph _
      refine iff_of_true (fun pre line post heq => ?_) ⟨by simp, .nil⟩
      simp at heq
  | cons line lines ih =>
      intro l nm ph hclean
      rw [List.forall_mem_cons] at hlens
      have hiff := hclean.lineSafe_iff hlens.1
      rw [safeFrom_cons_iff, List.forall_mem_cons, List.pairwise_cons]
      constructor
      · rintro ⟨hline, hrest⟩
        obtain ⟨l', hread, hclean'⟩ := hclean.readLine hlens.1 hline
        obtain ⟨hfits, hnm, hph⟩ := hiff.mp hline
        obtain ⟨hall, hpair⟩ := (ih hlens.2 hclean').mp (hrest 0 l' hread)
        refine ⟨⟨⟨hfits, hnm, hph⟩, fun line' hline' => ?_⟩, fun line' hline' => ?_, hpair⟩
        · obtain ⟨hfits', hnm', hph'⟩ := hall line' hline'
          exact ⟨hfits', hnm.trans hnm', hph.trans hph'⟩
        · exact (hall line' hline').2
      · rintro ⟨⟨hfits, hall⟩, hbefore, hpair⟩
        have hline := hiff.mpr hfits
        obtain ⟨l', hread, hclean'⟩ := hclean.readLine hlens.1 hline
        refine ⟨hline, fun ret l₂ hl₂ => ?_⟩
        obtain ⟨-, rfl⟩ : (0 : Int) = ret ∧ l' = l₂ := by simpa using hread.symm.trans hl₂
        exact (ih hlens.2 hclean').mpr
          ⟨fun line' hline' => ⟨(hall line' hline').1, hbefore line' hline'⟩, hpair⟩

/-- Loading a file is safe and selective if and only if every line has a
    comma, a name of 1 to 19 and a phone of at most 11 bytes, and no field is
    shorter than that of a line before it. -/
theorem safeAndSelective_iff {content : List UInt8} :
    SafeAndSelective content ↔ (∀ line ∈ fgetsLines bufferSize content, LineFits line) ∧
      (fgetsLines bufferSize content).Pairwise NotShorter := by
  have hlens : ∀ line ∈ fgetsLines bufferSize content, line.length < bufferSize :=
    fun line hline => length_of_mem_fgetsLines (by decide) hline
  rw [SafeAndSelective, safeFrom_iff hlens clean_zero]
  simp

/-! ## The contacts of a safe file -/

/-- `h'` and `cta'` are the book with the nodes `ys` in front, which hold the
    fields of the first lines, the last of these first. -/
structure StoresFields (lines : List (List UInt8)) (c : Book) (xs : List Addr) (h' : Heap)
    (cta' : Contact) (ys : List Addr) : Prop where
  list : h'.links.IsList cta'.people (ys ++ xs)
  fields : List.Forall₂ h'.Holds ys.reverse
    ((lines.map fun line => (nameOf line, phoneOf line)).take ys.length)
  next : c.heap.next ≤ h'.next
  same : ∀ a < c.heap.next, h'.person a = c.heap.person a
  count : cta'.count = c.contact.count + ys.length

/-- The loop of `contact_load` on safe lines. -/
theorem loadLoop_fields {env : Env} (hlens : ∀ line ∈ lines, line.length < bufferSize) :
    ∀ {l : Locals} {nm ph : List UInt8} {log xs : List Addr} {c : Book}, Clean l nm ph →
      SafeFrom l lines → c.Inv log xs →
      ∃ h' cta' ret ys, loadLoop env lines l c.heap c.contact = .ok (h', cta', ret) ∧
        StoresFields lines c xs h' cta' ys := by
  induction lines with
  | nil =>
      intro l nm ph log xs c _ _ h
      exact ⟨c.heap, c.contact, none, [], rfl, h.list, .nil, le_rfl, fun _ _ => rfl, by simp⟩
  | cons line lines ih =>
      intro l nm ph log xs c hclean hsafe h
      rw [List.forall_mem_cons] at hlens
      obtain ⟨hline, hrest⟩ := safeFrom_cons_iff.mp hsafe
      obtain ⟨l', hread, hclean'⟩ := hclean.readLine hlens.1 hline
      cases hmalloc : env.malloc c.heap.next with
      | false =>
          exact ⟨_, c.contact, some (-1), [], loadLoop_fails hread hmalloc, h.list, .nil,
            Nat.le_succ _, fun _ _ => rfl, by simp⟩
      | true =>
          obtain ⟨h₁, hturn, hlist, hnext, hperson⟩ := loadLoop_stores lines hread hmalloc h.list
            fun a ha => ⟨h.lt_of_mem ha, h.allocated a ha⟩
          obtain ⟨h', cta', ret, ys, hloop, hstores⟩ :=
            ih hlens.2 hclean' (hrest 0 l' hread) (h.cons hlist hnext hperson)
          have hlt : c.heap.next < h₁.next := hnext ▸ Nat.lt_succ_self _
          -- the block is still there at the end, with the fields of its line
          have hblock : h'.Holds c.heap.next (nameOf line, phoneOf line) := by
            refine ⟨lt_of_lt_of_le hlt hstores.next, l'.toPerson, ?_, hline.stored l' hread⟩
            have hkept := hstores.same c.heap.next hlt
            rw [hkept, hperson, Function.update_self]
          refine ⟨h', cta', ret, ys ++ [c.heap.next], hturn.trans hloop, ?_, ?_, ?_, ?_, ?_⟩
          · simpa using hstores.list
          · rw [List.reverse_append, List.length_append]
            exact .cons hblock hstores.fields
          · exact hlt.le.trans hstores.next
          · intro a ha
            have hkept := hstores.same a (ha.trans hlt)
            rw [hkept, hperson, Function.update_of_ne (ne_of_lt ha)]
          · have hcount := hstores.count
            rw [hcount, List.length_append, List.length_singleton]
            show c.contact.count + 1 + _ = _
            omega

/-- A safe file is loaded without a fault, and every contact has the name and
    phone of its own line. -/
theorem contactLoad_fields {env : Env} {content : List UInt8} {log xs : List Addr} {c : Book}
    (hsafe : SafeAndSelective content) (hopen : env.opensRead = true) (h : c.Inv log xs) :
    ∃ h' cta' ret ys, contactLoad env c.heap c.contact (some content) = .ok (h', cta', ret) ∧
      StoresFields (fgetsLines bufferSize content) c xs h' cta' ys := by
  simp only [contactLoad, hopen, if_true]
  exact loadLoop_fields (fun line hline => length_of_mem_fgetsLines (by decide) hline) clean_zero
    hsafe h

/-- A file of one line without a comma, `x`: the comma is looked for behind the
    line.  A file of `bob,1` and `al,2`: the second name is `alb`. -/
theorem not_safeAndSelective :
    ¬ SafeAndSelective [120] ∧
      ¬ SafeAndSelective [98, 111, 98, comma, 49, newline, 97, 108, comma, 50, newline] := by
  constructor
  · intro hsafe
    have hline : LineSafe .zero [120] := hsafe [] [120] [] rfl .zero rfl
    have hfits := ((clean_zero.lineSafe_iff (by decide)).mp hline).1.comma
    exact absurd hfits (by decide)
  · intro hsafe
    have hlines : fgetsLines bufferSize
        [98, 111, 98, comma, 49, newline, 97, 108, comma, 50, newline] =
        [[98, 111, 98, comma, 49, newline], [97, 108, comma, 50, newline]] := by decide
    rw [SafeAndSelective, hlines, safeFrom_iff (by decide) clean_zero] at hsafe
    exact absurd hsafe.2 (by
      rw [List.pairwise_pair]
      exact fun hshort => absurd hshort.1 (by decide))

end LinuxLearning.ContactBook
