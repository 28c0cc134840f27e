/-
  LinuxLearning.ContactBook.Failures

  What `contact_save` and `contact_load` leave behind when they report a
  failure.  `contact_save` has opened the file for writing before it looks at
  the book; `contact_load` links each contact before it reads the next line.
-/

import LinuxLearning.ContactBook.Invariant

namespace LinuxLearning.ContactBook

open Lib

variable {env : Env} {log xs : List Addr} {c : Book} {l : Locals} {h' : Heap} {cta' : Contact}
  {f f' : Option (List UInt8)} {lines : List (List UInt8)} {k : Nat}

/-! ## Saving -/

/-- `contact_save` reports the failure of an empty book, and no other. -/
theorem contactSave_fails_iff {h h' : Heap} {people : Option Addr} :
    contactSave env h people f = .ok (h', f', some (-1)) ↔
      people = none ∧ h' = h ∧ f' = if env.opensWrite then some [] else f := by
  cases people with
  | none =>
      simp only [contactSave, Except.ok.injEq, Prod.mk.injEq, and_true, true_and]
      exact and_congr eq_comm eq_comm
  | some a =>
      -- with a contact in the book the function goes wrong or falls off its end
      refine iff_of_false (fun hsave => ?_) (by simp)
      simp only [contactSave] at hsave
      split at hsave
      · cases hsave
      · split at hsave
        · cases hloop : saveLoop (Heap.setPerson _ _ _) _ (some a) with
          | error x =>
              rw [hloop] at hsave
              cases hsave
          | ok out =>
              rw [hloop] at hsave
              simp [Bind.bind, Except.bind, Pure.pure, Except.pure] at hsave
        · cases hsave

/-! ## Loading -/

/-- The arrays of `contact_load` behind some lines. -/
def arraysAfter (l : Locals) : List (List UInt8) → Except Fault Locals
  | [] => .ok l
  | line :: lines => do
      let (_, l) ← l.readLine line
      arraysAfter l lines

theorem arraysAfter_cons {l' : Locals} {line : List UInt8} {ret : Int}
    (hread : l.readLine line = .ok (ret, l')) :
    arraysAfter l (line :: lines) = arraysAfter l' lines := by
  simp [arraysAfter, hread, Bind.bind, Except.bind]

theorem arraysAfter_fault {line : List UInt8} {x : Fault} (hread : l.readLine line = .error x) :
    arraysAfter l (line :: lines) = .error x := by
  simp [arraysAfter, hread, Bind.bind, Except.bind]

/-- `malloc` fails for the line behind `k` others, for which it succeeds, and
    these lines are taken apart inside the arrays; `next` is the first address
    that `malloc` would give out. -/
structure FailsBehind (env : Env) (next : Addr) (l : Locals) (lines : List (List UInt8))
    (k : Nat) : Prop where
  lt : k < lines.length
  succeeds : ∀ i < k, env.malloc (next + i) = true
  fails : env.malloc (next + k) = false
  arrays : ∃ l', arraysAfter l (lines.take (k + 1)) = .ok l'

theorem FailsBehind.eq_zero {next : Addr} (hk : FailsBehind env next l lines k)
    (hmalloc : env.malloc next = false) : k = 0 := by
  by_contra hne
  have htrue := hk.succeeds 0 (Nat.pos_of_ne_zero hne)
  rw [Nat.add_zero, hmalloc] at htrue
  cases htrue

/-- A line with memory for its contact only shifts the failure. -/
theorem failsBehind_cons_iff {l' : Locals} {line : List UInt8} {ret : Int} {next : Addr}
    (hread : l.readLine line = .ok (ret, l')) (hmalloc : env.malloc next = true) :
    FailsBehind env next l (line :: lines) k ↔
      ∃ j, k = j + 1 ∧ FailsBehind env (next + 1) l' lines j := by
  constructor
  · intro hk
    cases k with
    | zero =>
        have hfails := hk.fails
        rw [Nat.add_zero, hmalloc] at hfails
        cases hfails
    | succ j =>
        refine ⟨j, rfl, Nat.lt_of_succ_lt_succ hk.lt, fun i hi => ?_, ?_, ?_⟩
        · rw [Nat.add_right_comm]
          exact hk.succeeds (i + 1) (Nat.succ_lt_succ hi)
        · rw [Nat.add_right_comm]
          exact hk.fails
        · obtain ⟨l₂, hl₂⟩ := hk.arrays
          rw [List.take_succ_cons, arraysAfter_cons hread] at hl₂
          exact ⟨l₂, hl₂⟩
  · rintro ⟨j, rfl, hj⟩
    refine ⟨Nat.succ_lt_succ hj.lt, fun i hi => ?_, ?_, ?_⟩
    · cases i with
      | zero => exact hmalloc
      | succ i =>
          rw [← Nat.add_assoc, Nat.add_right_comm]
          exact hj.succeeds i (Nat.lt_of_succ_lt_succ hi)
    · rw [← Nat.add_assoc, Nat.add_right_comm]
      exact hj.fails
    · obtain ⟨l₂, hl₂⟩ := hj.arrays
      exact ⟨l₂, by rw [List.take_succ_cons, arraysAfter_cons hread, hl₂]⟩

/-- The loop of `contact_load` reports a failure behind `k` contacts that it
    has linked; where there is none, only an address was used up. -/
theorem loadLoop_reports (lines : List (List UInt8)) :
    ∀ {log xs : List Addr} {c : Book} {l : Locals} {h' : Heap} {cta' : Contact}, c.Inv log xs →
      loadLoop env lines l c.heap c.contact = .ok (h', cta', some (-1)) →
      ∃ k, FailsBehind env c.heap.next l lines k ∧ cta'.count = c.contact.count + k ∧
        (k = 0 → cta' = c.contact ∧ h' = { c.heap with next := c.heap.next + 1 }) := by
  induction lines with
  | nil =>
      intro log xs c l h' cta' _ hloop
      simp [loadLoop] at hloop
  | cons line lines ih =>
      intro log xs c l h' cta' h hloop
      rcases readLine_ok l line with ⟨x, hfault, -⟩ | ⟨l', hread⟩
      · simp [loadLoop, hfault, Bind.bind, Except.bind] at hloop
      cases hmalloc : env.malloc c.heap.next with
      -- the failure is here: nothing was linked
      | false =>
          rw [loadLoop_fails hread hmalloc] at hloop
          obtain ⟨hheap, hcta⟩ : { c.heap with next := c.heap.next + 1 } = h' ∧
              c.contact = cta' := by simpa using hloop
          refine ⟨0, ⟨Nat.succ_pos _, fun i hi => absurd hi (Nat.not_lt_zero i), hmalloc,
            l', by rw [List.take_succ_cons, arraysAfter_cons hread]; rfl⟩, ?_,
            fun _ => ⟨hcta.symm, hheap.symm⟩⟩
          simp [← hcta]
      | true =>
          obtain ⟨h₁, hturn, hlist, hnext, hperson⟩ := loadLoop_stores lines hread hmalloc h.list
            fun a ha => ⟨h.lt_of_mem ha, h.allocated a ha⟩
          rw [hturn] at hloop
          -- the rest of the lines is read with one contact more
          obtain ⟨j, hj, hcount, -⟩ := ih (h.cons hlist hnext hperson) hloop
          refine ⟨j + 1, (failsBehind_cons_iff hread hmalloc).mpr ⟨j, rfl, hnext ▸ hj⟩, ?_,
            fun hzero => absurd hzero (Nat.succ_ne_zero j)⟩
          rw [hcount]
          push_cast
          show c.contact.count + 1 + j = _
          omega

/-- It does so where `malloc` fails behind `k` lines. -/
theorem loadLoop_reports_of_fails (lines : List (List UInt8)) :
    ∀ {log xs : List Addr} {c : Book} {l : Locals} {k : Nat}, c.Inv log xs →
      FailsBehind env c.heap.next l lines k →
      ∃ h' cta', loadLoop env lines l c.heap c.contact = .ok (h', cta', some (-1)) ∧
        cta'.count = c.contact.count + k := by
  induction lines with
  | nil => exact fun _ hk => absurd hk.lt (Nat.not_lt_zero _)
  | cons line lines ih =>
      intro log xs c l k h hk
      rcases readLine_ok l line with ⟨x, hfault, -⟩ | ⟨l', hread⟩
      · obtain ⟨l₂, hl₂⟩ := hk.arrays
        rw [List.take_succ_cons, arraysAfter_fault hfault] at hl₂
        cases hl₂
      cases hmalloc : env.malloc c.heap.next with
      | false =>
          obtain rfl := hk.eq_zero hmalloc
          exact ⟨_, _, loadLoop_fails hread hmalloc, by simp⟩
      | true =>
          obtain ⟨h₁, hturn, hlist, hnext, hperson⟩ := loadLoop_stores lines hread hmalloc h.list
            fun a ha => ⟨h.lt_of_mem ha, h.allocated a ha⟩
          obtain ⟨j, rfl, hj⟩ := (failsBehind_cons_iff hread hmalloc).mp hk
          obtain ⟨h', cta', hloop, hcount⟩ := ih (h.cons hlist hnext hperson) (hnext ▸ hj)
          refine ⟨h', cta', hturn.trans hloop, ?_⟩
          rw [hcount]
          push_cast
          show c.contact.count + 1 + j = _
          omega

/-! ## Failures that change nothing -/

/-- What a failure that is reported leaves: the file, and the list and count of
    the book, as they were. -/
structure FailuresChangeNothing (env : Env) (c : Book) (f : Option (List UInt8)) : Prop where
  save : ∀ h' f', contactSave env c.heap c.contact.people f = .ok (h', f', some (-1)) → f' = f
  load : ∀ h' cta', contactLoad env c.heap c.contact f = .ok (h', cta', some (-1)) →
    c.Same ⟨h', cta'⟩ ∧ cta'.count = c.contact.count

/-- An empty book is saved to a file that does not open, or is empty. -/
def SaveSafe (env : Env) (c : Book) (f : Option (List UInt8)) : Prop :=
  c.contact.people = none → env.opensWrite = true → f = some []

/-- Where the file opens, `malloc` fails for no line behind another. -/
def LoadSafe (env : Env) (c : Book) (f : Option (List UInt8)) : Prop :=
  env.opensRead = true → ∀ content ∈ f, ∀ k, 0 < k →
    ¬ FailsBehind env c.heap.next .zero (fgetsLines bufferSize content) k

theorem save_keeps_iff :
    (∀ h' f', contactSave env c.heap c.contact.people f = .ok (h', f', some (-1)) → f' = f) ↔
      SaveSafe env c f := by
  constructor
  · intro hsave hpeople hopen
    have hkept := hsave c.heap (some []) (contactSave_fails_iff.mpr ⟨hpeople, rfl, by simp [hopen]⟩)
    exact hkept.symm
  · intro hsafe h' f' hsave
    obtain ⟨hpeople, -, rfl⟩ := contactSave_fails_iff.mp hsave
    split
    · rename_i hopen
      exact (hsafe hpeople hopen).symm
    · rfl

/-- A book of which only an address was used up. -/
theorem Book.same_of_next (c : Book) (n : Addr) :
    c.Same ⟨{ c.heap with next := n }, c.contact⟩ :=
  fun _ h => ⟨⟨h.list, h.allocated, h.count⟩, fun _ _ => rfl⟩

theorem load_keeps_iff (h : c.Inv log xs) :
    (∀ h' cta', contactLoad env c.heap c.contact f = .ok (h', cta', some (-1)) →
      c.Same ⟨h', cta'⟩ ∧ cta'.count = c.contact.count) ↔ LoadSafe env c f := by
  constructor
  · intro hload hopen content hf k hk hfails
    obtain rfl : f = some content := hf
    obtain ⟨h', cta', hloop, hcount⟩ := loadLoop_reports_of_fails _ h hfails
    have hkept := (hload h' cta' (by simp only [contactLoad, hopen, if_true, hloop])).2
    -- `k` contacts stay linked
    rw [hcount] at hkept
    omega
  · intro hsafe h' cta' hload
    have hsame : c.Same ⟨c.heap, c.contact⟩ ∧ c.contact.count = c.contact.count :=
      ⟨fun _ hl => ⟨hl, fun _ _ => rfl⟩, rfl⟩
    cases f with
    | none =>
        obtain ⟨rfl, rfl⟩ : c.heap = h' ∧ c.contact = cta' := by simpa [contactLoad] using hload
        exact hsame
    | some content =>
        by_cases hopen : env.opensRead = true
        · simp only [contactLoad, hopen, if_true] at hload
          obtain ⟨k, hfails, -, hzero⟩ := loadLoop_reports _ h hload
          -- so the failure was at the first line
          obtain rfl : k = 0 := by
            by_contra hk
            exact hsafe hopen content rfl k (Nat.pos_of_ne_zero hk) hfails
          obtain ⟨rfl, rfl⟩ := hzero rfl
          exact ⟨c.same_of_next _, rfl⟩
        · obtain ⟨rfl, rfl⟩ : c.heap = h' ∧ c.contact = cta' := by
            simpa [contactLoad, hopen] using hload
          exact hsame

/-- A failure that is reported changes nothing if and only if an empty book is
    saved to no file with a content, and `malloc` does not fail once a contact
    was linked. -/
theorem failuresChangeNothing_iff (h : c.Inv log xs) :
    FailuresChangeNothing env c f ↔ SaveSafe env c f ∧ LoadSafe env c f := by
  rw [← save_keeps_iff, ← load_keeps_iff h]
  exact ⟨fun hall => ⟨hall.save, hall.load⟩, fun ⟨hsave, hload⟩ => ⟨hsave, hload⟩⟩

/-- A book with one contact, a file with a line, no memory: both calls leave
    what was there. -/
theorem failuresChangeNothing_of_noMemory :
    Stores oneBlock (some 0) [([97], [49])] ∧
    FailuresChangeNothing { plentiful with malloc := fun _ => false } ⟨oneBlock, ⟨1, some 0⟩⟩
      (some [98, comma, 50]) := by
  have hinv : Book.Inv [0] ⟨oneBlock, ⟨1, some 0⟩⟩ [0] := {
    list := Links.isList_build (by simp)
    allocated := by decide
    count := rfl
    sublist := .refl _
    lt_next := by decide }
  refine ⟨stores_oneBlock, (failuresChangeNothing_iff hinv).mpr ⟨fun hnone => ?_, ?_⟩⟩
  · cases hnone
  · intro _ content _ k hk hfails
    exact absurd (hfails.succeeds 0 hk) (by simp)

/-- Lines that were saved are taken apart. -/
theorem arraysAfter_lines {es : List Entry} (hes : ∀ e ∈ es, Storable e) :
    ∀ {l : Locals}, ∃ l', arraysAfter l (es.map (lineOf · ++ [newline])) = .ok l' := by
  induction es with
  | nil => exact fun {l} => ⟨l, rfl⟩
  | cons e es ih =>
      intro l
      rw [List.forall_mem_cons] at hes
      obtain ⟨l₁, hread, -⟩ := @readLine_lineOf l e hes.1
      obtain ⟨l₂, hl₂⟩ := @ih hes.2 l₁
      exact ⟨l₂, by rw [List.map_cons, arraysAfter_cons hread, hl₂]⟩

/-- Memory for one contact. -/
def memoryForOne : Env := { plentiful with malloc := fun a => a == 0 }

/-- The contacts `a,1` and `b,2`. -/
def twoEntries : List Entry := [([97], [49]), ([98], [50])]

/-- Saving the cleared book empties the file.  Loading `a,1` and `b,2` with
    memory for one contact leaves that one in the book. -/
theorem failure_changes_book :
    ¬ FailuresChangeNothing plentiful (.cleared .empty) (some [97]) ∧
    (∃ h' cta', contactLoad memoryForOne .empty ⟨0, none⟩ (some (fileOf twoEntries)) =
      .ok (h', cta', some (-1)) ∧ cta'.count = 1) ∧
    ¬ FailuresChangeNothing memoryForOne (.cleared .empty) (some (fileOf twoEntries)) := by
  have hes : ∀ e ∈ twoEntries, Storable e := by
    simp only [twoEntries, List.forall_mem_cons]
    refine ⟨?_, ?_, by simp⟩ <;> constructor <;> decide
  have hfails : FailsBehind memoryForOne 0 .zero (twoEntries.map (lineOf · ++ [newline])) 1 :=
    ⟨by decide, by decide, rfl, arraysAfter_lines hes⟩
  obtain ⟨h', cta', hloop, hcount⟩ := loadLoop_reports_of_fails _ (inv_cleared .empty) hfails
  have hload : contactLoad memoryForOne .empty ⟨0, none⟩ (some (fileOf twoEntries)) =
      .ok (h', cta', some (-1)) := by
    simp only [contactLoad, fgetsLines_fileOf hes]
    exact hloop
  refine ⟨fun hall => ?_, ⟨h', cta', hload, hcount⟩, fun hall => ?_⟩
  · have hkept := hall.save .empty (some []) rfl
    cases hkept
  · have hkept := (hall.load _ _ hload).2
    rw [hcount] at hkept
    cases hkept

end LinuxLearning.ContactBook
