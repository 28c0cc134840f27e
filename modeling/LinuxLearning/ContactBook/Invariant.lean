/-
  LinuxLearning.ContactBook.Invariant

  Any sequence of operations on one book.  The list of the book stays a list
  of allocated blocks and `count` its length, and `DELETE` takes off the
  newest contact of the name, as long as every `DELETE` names a contact that
  is there and `INSERT` does not find −1 as the value of `contact_insert`.
-/

import LinuxLearning.ContactBook.Operations

namespace LinuxLearning.ContactBook

open Lib

/-! ## What is to hold -/

/-- The list of the book is `xs`, its blocks are allocated, and `count` is its
    length. -/
structure Book.IsListOf (c : Book) (xs : List Addr) : Prop where
  list : c.heap.links.IsList c.contact.people xs
  allocated : ∀ a ∈ xs, (c.heap.person a).isSome
  count : c.contact.count = xs.length

/-- The block at `a` has that name. -/
def Heap.Named (h : Heap) (name : Word nameLength) (a : Addr) : Prop :=
  ∃ p, h.person a = some p ∧ IsCString p.name.toList name.bytes

/-- A contact of that name is in the book. -/
def Book.Has (c : Book) (name : Word nameLength) : Prop :=
  ∃ xs, c.IsListOf xs ∧ ∃ a ∈ xs, c.heap.Named name a

/-- One contact of that name was taken off, the one that was inserted last,
    and the others are as before.  `log` has the inserted nodes, the newest
    first. -/
def DeletesNewest (log : List Addr) (name : Word nameLength) (c c' : Book) : Prop :=
  ∃ pre a post, c.IsListOf (pre ++ a :: post) ∧ c.heap.Named name a ∧
    (∀ b ∈ pre ++ post, c.heap.Named name b → [a, b].Sublist log) ∧
    c'.IsListOf (pre ++ post) ∧ ∀ b ∈ pre ++ post, c'.heap.person b = c.heap.person b

/-- List and count are as before. -/
def Book.Same (c c' : Book) : Prop :=
  ∀ xs, c.IsListOf xs → c'.IsListOf xs ∧ ∀ a ∈ xs, c'.heap.person a = c.heap.person a

/-- What an operation is to do, besides keeping the book a list. -/
def Op.Spec (log : List Addr) (c c' : Book) : Op → Prop
  | .delete name => (c.Has name → DeletesNewest log name c c') ∧ (¬ c.Has name → c.Same c')
  | _ => True

/-- The faults that an operation may end in: a line of a file does not fit, a
    loaded string fills its array, `SAVE` gets no memory or no file. -/
def Op.Excuses : Op → Fault → Prop
  | .load _ _, f => f = .readsPastArray ∨ f = .writesPastArray
  | .ptint, f => f = .unterminated
  | .search _, f => f = .unterminated
  | .save _ _, f => f = .unterminated ∨ f = .nullPointer
  | _, _ => False

/-- The book is a list after each operation, and each does what it is to do. -/
def Keeps : List Addr → Book → List Op → Prop
  | _, _, [] => True
  | log, c, op :: ops =>
      match step c op with
      | .error f => op.Excuses f
      | .ok (c', inserted) =>
          (∃ xs, c'.IsListOf xs) ∧ op.Spec log c c' ∧ Keeps (inserted.reverse ++ log) c' ops

/-- A `DELETE` names a contact that is there, and an `INSERT` with memory does
    not find −1 as the value of `contact_insert`. -/
def Op.Meets (c : Book) : Op → Prop
  | .insert env temp _ _ => env.malloc c.heap.next = true → temp ≠ -1
  | .delete name => c.Has name
  | _ => True

/-- Every operation meets its condition in the book it finds. -/
def AllMeet : Book → List Op → Prop
  | _, [] => True
  | c, op :: ops =>
      op.Meets c ∧ ∀ c' inserted, step c op = .ok (c', inserted) → AllMeet c' ops

/-! ## The invariant -/

/-- The list of the book is `xs`, in the order of the insertions `log`, all of
    blocks that `malloc` has given out. -/
structure Book.Inv (log : List Addr) (c : Book) (xs : List Addr) : Prop extends c.IsListOf xs where
  sublist : xs.Sublist log
  lt_next : ∀ a ∈ log, a < c.heap.next

theorem Book.IsListOf.unique {c : Book} {xs ys : List Addr} (hx : c.IsListOf xs)
    (hy : c.IsListOf ys) : xs = ys := hx.list.unique hy.list

variable {log xs : List Addr} {c : Book}

theorem Book.Inv.lt_of_mem (h : c.Inv log xs) {a : Addr} (ha : a ∈ xs) : a < c.heap.next :=
  h.lt_next a (h.sublist.subset ha)

theorem Book.Inv.length_le (h : c.Inv log xs) : xs.length ≤ c.heap.next :=
  h.list.length_le fun _ ha => h.lt_of_mem ha

theorem Book.Inv.has_iff (h : c.Inv log xs) (name : Word nameLength) :
    c.Has name ↔ ∃ a ∈ xs, c.heap.Named name a := by
  constructor
  · rintro ⟨ys, hys, hnamed⟩
    rwa [h.unique hys]
  · exact fun hnamed => ⟨xs, h.toIsListOf, hnamed⟩

/-- The heap changed outside the list. -/
theorem Book.Inv.of_heap (h : c.Inv log xs) {h' : Heap} (hnext : c.heap.next ≤ h'.next)
    (hlinks : h'.links = c.heap.links) (hsame : ∀ a < c.heap.next, h'.person a = c.heap.person a) :
    Book.Inv log { c with heap := h' } xs where
  list := by
    rw [hlinks]
    exact h.list
  allocated := fun a ha => by
    rw [hsame a (h.lt_of_mem ha)]
    exact h.allocated a ha
  count := h.count
  sublist := h.sublist
  lt_next := fun a ha => lt_of_lt_of_le (h.lt_next a ha) hnext

/-- One more block was put in front. -/
theorem Book.Inv.cons (h : c.Inv log xs) {h' : Heap}
    (hlist : h'.links.IsList (some c.heap.next) (c.heap.next :: xs))
    (hnext : h'.next = c.heap.next + 1) {p : Person}
    (hperson : h'.person = Function.update c.heap.person c.heap.next (some p)) :
    Book.Inv (c.heap.next :: log) ⟨h', ⟨c.contact.count + 1, some c.heap.next⟩⟩
      (c.heap.next :: xs) where
  list := hlist
  allocated := by
    rw [List.forall_mem_cons, hperson, Function.update_self]
    refine ⟨rfl, fun a ha => ?_⟩
    rw [Function.update_of_ne (ne_of_lt (h.lt_of_mem ha))]
    exact h.allocated a ha
  count := by
    show c.contact.count + 1 = _
    rw [h.count, List.length_cons]
    rfl
  sublist := h.sublist.cons_cons _
  lt_next := by
    rw [List.forall_mem_cons, hnext]
    exact ⟨Nat.lt_succ_self _, fun a ha => Nat.lt_succ_of_lt (h.lt_next a ha)⟩

/-! ## `INSERT` -/

/-- A block from `malloc`, filled and put in front of the list. -/
theorem insert_in_front (h : c.Inv log xs) {env : Env} (hmalloc : env.malloc c.heap.next = true)
    (p : Person) :
    ∃ h₀ h', c.heap.malloc env = (some c.heap.next, h₀) ∧
      contactInsert (h₀.setPerson c.heap.next p) c.heap.next c.contact.people =
        .ok (h', some c.heap.next) ∧
      Book.Inv (c.heap.next :: log) ⟨h', ⟨c.contact.count + 1, some c.heap.next⟩⟩
        (c.heap.next :: xs) := by
  obtain ⟨h₀, hcall⟩ : ∃ h₀, c.heap.malloc env = (some c.heap.next, h₀) := by
    simp [Heap.malloc, hmalloc]
  obtain ⟨-, hgrown⟩ := malloc_some hcall p
  obtain ⟨h', hinsert, hlist, hperson, hnext⟩ := contactInsert_ok (hgrown.links ▸ h.list)
    (fun a ha => by
      rw [hgrown.person_of_lt (h.lt_of_mem ha)]
      exact h.allocated a ha)
    (fun hmem => lt_irrefl _ (h.lt_of_mem hmem))
  exact ⟨h₀, h', hcall, hinsert,
    h.cons hlist (hnext.trans hgrown.next) (hperson.trans hgrown.person)⟩

theorem malloc_fails {env : Env} {h : Heap} (hmalloc : env.malloc h.next = false) :
    h.malloc env = (none, { h with next := h.next + 1 }) := by
  simp [Heap.malloc, hmalloc]

/-- `INSERT` leaves a list, if it does not take the branch for a failed
    insertion. -/
theorem insert_inv (h : c.Inv log xs) {env : Env} {temp : Int} {name : Word nameLength}
    {phone : Word phoneLength} (htemp : env.malloc c.heap.next = true → temp ≠ -1) :
    ∃ c' inserted ret xs', c.insert env temp name phone = .ok (c', inserted, ret) ∧
      c'.Inv (inserted.reverse ++ log) xs' := by
  cases hmalloc : env.malloc c.heap.next with
  | false =>
      refine ⟨{ c with heap := { c.heap with next := c.heap.next + 1 } }, [], -1, xs, ?_,
        h.of_heap (Nat.le_succ _) rfl fun _ _ => rfl⟩
      rw [Book.insert, malloc_fails hmalloc]
  | true =>
      obtain ⟨h₀, h', hcall, hinsert, hinv⟩ := insert_in_front h hmalloc
        ⟨name.storedIn (env.garbage c.heap.next).name,
          phone.storedIn (env.garbage c.heap.next).phone⟩
      refine ⟨_, [c.heap.next], 0, _, ?_, hinv⟩
      simp [Book.insert, hcall, hinsert, htemp hmalloc, Bind.bind, Except.bind, Pure.pure,
        Except.pure]

/-- If it does, the first block of the list is not allocated any more. -/
theorem insert_frees (h : c.Inv log xs) {env : Env} {name : Word nameLength}
    {phone : Word phoneLength} (hmalloc : env.malloc c.heap.next = true) :
    ∃ c' inserted ret, c.insert env (-1) name phone = .ok (c', inserted, ret) ∧
      ∀ ys, ¬ c'.IsListOf ys := by
  obtain ⟨h₀, h', hcall, hinsert, hinv⟩ := insert_in_front h hmalloc
    ⟨name.storedIn (env.garbage c.heap.next).name,
      phone.storedIn (env.garbage c.heap.next).phone⟩
  refine ⟨⟨h'.free c.heap.next, { c.contact with people := some c.heap.next }⟩, [c.heap.next], -1,
    ?_, fun ys hys => ?_⟩
  · simp [Book.insert, hcall, hinsert, Bind.bind, Except.bind, Pure.pure, Except.pure]
  · obtain ⟨rest, rfl⟩ := hys.list.eq_cons
    have hfirst := hys.allocated _ (List.mem_cons_self ..)
    simp [Heap.free] at hfirst

/-! ## `SEARCH` and `DELETE` -/

/-- The comparison of `contact_search` finds out whether a block has the
    name. -/
theorem strcmp_named {h : Heap} {a : Addr} {p : Person} (hp : h.person a = some p)
    (name : Word nameLength) (v : Vector UInt8 nameLength) :
    ∃ r, strcmpEq? p.name.toList (name.storedIn v).toList = some r ∧
      (r = true ↔ h.Named name a) := by
  have hlen : name.bytes.length < p.name.toList.length := by simpa using name.fits
  obtain ⟨r, hr, hiff⟩ := strcmpEq?_of_isCString (name.isCString_storedIn v) hlen
  refine ⟨r, hr, hiff.trans ⟨fun hname => ⟨p, hp, hname⟩, ?_⟩⟩
  rintro ⟨p', hp', hname⟩
  obtain rfl := Option.some.inj (hp.symm.trans hp')
  exact hname

/-- `contact_search` returns the first node of that name, or null. -/
theorem contactSearch_ok {h : Heap} (name : Word nameLength) (v : Vector UInt8 nameLength)
    {xs : List Addr} (halloc : ∀ a ∈ xs, (h.person a).isSome) :
    ∀ {prev cur : Option Addr} {fuel : Nat}, h.links.Chain prev cur xs → xs.length ≤ fuel →
      (contactSearch h (name.storedIn v) fuel cur = .ok none ∧ ∀ a ∈ xs, ¬ h.Named name a) ∨
      ∃ pre a post, contactSearch h (name.storedIn v) fuel cur = .ok (some a) ∧
        xs = pre ++ a :: post ∧ h.Named name a ∧ ∀ b ∈ pre, ¬ h.Named name b := by
  induction xs with
  | nil =>
      intro prev cur fuel hchain _
      obtain rfl : cur = none := hchain
      exact .inl ⟨by cases fuel <;> rfl, by simp⟩
  | cons x xs ih =>
      intro prev cur fuel hchain hfuel
      obtain ⟨rfl, -, hrest⟩ := hchain
      rw [List.forall_mem_cons] at halloc
      obtain ⟨n, rfl⟩ : ∃ n, fuel = n + 1 :=
        Nat.exists_eq_succ_of_ne_zero (by rw [List.length_cons] at hfuel; omega)
      obtain ⟨p, hp⟩ := Option.isSome_iff_exists.mp halloc.1
      obtain ⟨r, hr, hiff⟩ := strcmp_named hp name v
      cases r with
      | true =>
          -- the walk ends here, and no node was passed
          right
          exact ⟨[], x, xs, by simp only [contactSearch, hp, hr], rfl, hiff.mp rfl, by simp⟩
      | false =>
          have hx : ¬ h.Named name x := fun hnamed => Bool.false_ne_true (hiff.mpr hnamed)
          simp only [contactSearch, hp, hr]
          rcases ih halloc.2 hrest (Nat.le_of_succ_le_succ hfuel) with
            ⟨hnone, hall⟩ | ⟨pre, a, post, hsome, rfl, hnamed, hpre⟩
          · exact .inl ⟨hnone, List.forall_mem_cons.mpr ⟨hx, hall⟩⟩
          · exact .inr ⟨x :: pre, a, post, hsome, rfl, hnamed, List.forall_mem_cons.mpr ⟨hx, hpre⟩⟩

theorem find_ok (h : c.Inv log xs) (name : Word nameLength) :
    (c.find name = .ok none ∧ ¬ c.Has name) ∨
    ∃ pre a post, c.find name = .ok (some a) ∧ xs = pre ++ a :: post ∧ c.heap.Named name a ∧
      ∀ b ∈ pre, ¬ c.heap.Named name b := by
  rcases contactSearch_ok name (.replicate _ 0) h.allocated h.list.chain h.length_le with
    ⟨hnone, hall⟩ | hfound
  · refine .inl ⟨hnone, fun hhas => ?_⟩
    obtain ⟨a, ha, hnamed⟩ := (h.has_iff name).mp hhas
    exact hall a ha hnamed
  · exact .inr hfound

/-- `contact_remove` takes a node off the list and touches no block. -/
theorem contactRemove_ok {h : Heap} {head : Option Addr} {pre post : List Addr} {x : Addr}
    (hlist : h.links.IsList head (pre ++ x :: post))
    (halloc : ∀ a ∈ pre ++ x :: post, (h.person a).isSome) :
    ∃ h' head', contactRemove h (some x) head = .ok (h', head') ∧
      h'.links.IsList head' (pre ++ post) ∧ h'.person = h.person ∧ h'.next = h.next := by
  have hx : (h.person x).isSome = true := halloc x (by simp)
  have hnext : h.valid (h.links x).next = true := by
    rw [hlist.chain.next]
    cases post with
    | nil => rfl
    | cons n post => exact halloc n (by simp)
  -- the neighbours are written to, so their blocks have to be allocated
  have hprev : h.valid (h.links x).prev = true := by
    rcases List.eq_nil_or_concat pre with rfl | ⟨ys, p, rfl⟩
    · rw [hlist.chain.2.1]
      rfl
    · rw [List.concat_eq_append] at hlist halloc
      have hchain : h.links.Chain none head (ys ++ p :: x :: post) := by simpa using hlist.chain
      rw [hchain.prev]
      exact halloc p (by simp)
  have hx' : x ∉ pre ++ post := by
    have hnodup := hlist.nodup
    rw [List.nodup_middle, List.nodup_cons] at hnodup
    exact hnodup.1
  refine ⟨{ h with links := ((h.links.unlink head x).1.setNext x none).setPrev x none },
    (h.links.unlink head x).2, ?_, hlist.unlink.congr fun y hy => ?_, rfl, rfl⟩
  · simp only [contactRemove, hx, hnext, hprev, Bool.and_self, if_true]
  · have hne : y ≠ x := ne_of_mem_of_not_mem hy hx'
    exact (Links.setPrev_of_ne hne).trans (Links.setNext_of_ne hne)

/-- `DELETE` of a name that is there takes off the newest contact of that
    name. -/
theorem delete_newest (h : c.Inv log xs) {name : Word nameLength} (hhas : c.Has name) :
    ∃ c' xs', c.delete name = .ok c' ∧ c'.Inv log xs' ∧ DeletesNewest log name c c' := by
  rcases find_ok h name with ⟨-, hnot⟩ | ⟨pre, a, post, hfind, rfl, hnamed, hpre⟩
  · exact absurd hhas hnot
  obtain ⟨h', head', hremove, hlist, hperson, hnext⟩ := contactRemove_ok h.list h.allocated
  have hnodup := h.list.nodup
  rw [List.nodup_middle, List.nodup_cons] at hnodup
  have hsame : ∀ b ∈ pre ++ post, (h'.free a).person b = c.heap.person b := fun b hb => by
    show Function.update h'.person a none b = _
    rw [Function.update_of_ne (ne_of_mem_of_not_mem hb hnodup.1), hperson]
  have hinv : Book.Inv log ⟨h'.free a, ⟨c.contact.count - 1, head'⟩⟩ (pre ++ post) :=
    { list := hlist
      allocated := fun b hb => by
        show ((h'.free a).person b).isSome = true
        rw [hsame b hb]
        exact h.allocated b (by
          rcases List.mem_append.mp hb with hb | hb <;> simp [hb])
      count := by
        show c.contact.count - 1 = _
        rw [h.count]
        simp only [List.length_append, List.length_cons]
        omega
      sublist := .trans (.append_left (List.sublist_cons_self ..) _) h.sublist
      lt_next := fun b hb => by
        show b < h'.next
        rw [hnext]
        exact h.lt_next b hb }
  refine ⟨_, _, ?_, hinv, pre, a, post, h.toIsListOf, hnamed, fun b hb hb' => ?_,
    hinv.toIsListOf, hsame⟩
  · simp [Book.delete, hfind, hremove, Bind.bind, Except.bind, Pure.pure, Except.pure]
  · -- the nodes before it have other names, those behind it are older
    rcases List.mem_append.mp hb with hbpre | hbpost
    · exact absurd hb' (hpre b hbpre)
    · have hpair : [a, b].Sublist (a :: post) :=
        .cons_cons a (List.singleton_sublist.mpr hbpost)
      exact (hpair.trans (List.sublist_append_right pre _)).trans h.sublist

/-- `DELETE` of any other name goes through a null pointer. -/
theorem delete_absent (h : c.Inv log xs) {name : Word nameLength} (hnot : ¬ c.Has name) :
    c.delete name = .error .nullPointer := by
  rcases find_ok h name with ⟨hfind, -⟩ | ⟨pre, a, post, -, rfl, hnamed, -⟩
  · simp [Book.delete, hfind, contactRemove, Bind.bind, Except.bind]
  · exact absurd ((h.has_iff name).mpr ⟨a, by simp, hnamed⟩) hnot

/-! ## The walks that print -/

/-- What printing a string, a person or a list of them can come to. -/
def Printed (r : Except Fault (List UInt8)) : Prop :=
  (∃ out, r = .ok out) ∨ r = .error .unterminated

theorem printed_string {n : Nat} (v : Vector UInt8 n) : Printed (printString v) := by
  unfold printString
  cases cstring? v.toList with
  | none => exact .inr rfl
  | some str => exact .inl ⟨str, rfl⟩

/-- Two things printed one after the other. -/
theorem Printed.bind {r r' : Except Fault (List UInt8)} (hr : Printed r) (hr' : Printed r')
    (f : List UInt8 → List UInt8 → List UInt8) :
    Printed (r >>= fun x => r' >>= fun y => pure (f x y)) := by
  rcases hr with ⟨x, rfl⟩ | rfl
  · rcases hr' with ⟨y, rfl⟩ | rfl
    · exact .inl ⟨f x y, rfl⟩
    · exact .inr rfl
  · exact .inr rfl

theorem printed_person (p : Person) : Printed (printPerson p) :=
  (printed_string _).bind (printed_string _) _

theorem printed_contact (p : Person) : Printed (printContact p) :=
  (printed_string _).bind (printed_string _) _

/-- A walk over the list meets no block that is not allocated, and ends. -/
theorem printLoop_ok {h : Heap} {print : Person → Except Fault (List UInt8)}
    (hprint : ∀ p, Printed (print p)) {xs : List Addr} (halloc : ∀ a ∈ xs, (h.person a).isSome) :
    ∀ {prev cur : Option Addr} {fuel : Nat}, h.links.Chain prev cur xs → xs.length ≤ fuel →
      Printed (printLoop h print fuel cur) := by
  induction xs with
  | nil =>
      intro prev cur fuel hchain _
      obtain rfl : cur = none := hchain
      exact .inl ⟨[], by cases fuel <;> rfl⟩
  | cons x xs ih =>
      intro prev cur fuel hchain hfuel
      obtain ⟨rfl, -, hrest⟩ := hchain
      rw [List.forall_mem_cons] at halloc
      obtain ⟨n, rfl⟩ : ∃ n, fuel = n + 1 :=
        Nat.exists_eq_succ_of_ne_zero (by rw [List.length_cons] at hfuel; omega)
      obtain ⟨p, hp⟩ := Option.isSome_iff_exists.mp halloc.1
      simp only [printLoop, hp]
      exact (hprint p).bind (ih halloc.2 hrest (Nat.le_of_succ_le_succ hfuel)) _

theorem ptint_ok (h : c.Inv log xs) : Printed c.ptint :=
  printLoop_ok printed_contact h.allocated h.list.chain h.length_le

theorem search_ok (h : c.Inv log xs) (name : Word nameLength) :
    (∃ out, c.search name = .ok out) ∨ c.search name = .error .unterminated := by
  rcases find_ok h name with ⟨hfind, -⟩ | ⟨pre, a, post, hfind, rfl, -, -⟩
  · exact .inl ⟨none, by simp [Book.search, hfind, Bind.bind, Except.bind, Pure.pure, Except.pure]⟩
  · obtain ⟨p, hp⟩ := Option.isSome_iff_exists.mp (h.allocated a (by simp))
    rcases printed_contact p with ⟨out, hout⟩ | hfault
    · exact .inl ⟨some out, by
        simp [Book.search, hfind, hp, hout, Bind.bind, Except.bind, Pure.pure, Except.pure]⟩
    · exact .inr (by simp [Book.search, hfind, hp, hfault, Bind.bind, Except.bind])

/-- `SAVE` leaves the list alone. -/
theorem save_ok (h : c.Inv log xs) (env : Env) (f : Option (List UInt8)) :
    (∃ fault, c.save env f = .error fault ∧ (fault = .unterminated ∨ fault = .nullPointer)) ∨
    ∃ c' f', c.save env f = .ok (c', f') ∧ c'.Inv log xs := by
  cases hpeople : c.contact.people with
  | none =>
      refine .inr ⟨c, if env.opensWrite then some [] else f, ?_, h⟩
      simp [Book.save, contactSave, hpeople, Bind.bind, Except.bind, Pure.pure, Except.pure]
  | some first =>
      cases hmalloc : env.malloc c.heap.next with
      | false =>
          refine .inl ⟨.nullPointer, ?_, .inr rfl⟩
          simp [Book.save, contactSave, hpeople, malloc_fails hmalloc, Bind.bind, Except.bind]
      | true =>
          obtain ⟨h₀, hcall⟩ : ∃ h₀, c.heap.malloc env = (some c.heap.next, h₀) := by
            simp [Heap.malloc, hmalloc]
          obtain ⟨-, hgrown⟩ := malloc_some hcall ⟨.replicate _ 0, .replicate _ 0⟩
          have hinv := h.of_heap (hgrown.next ▸ Nat.le_succ _) hgrown.links fun a ha =>
            hgrown.person_of_lt ha
          cases hopen : env.opensWrite with
          | false =>
              refine .inl ⟨.nullPointer, ?_, .inr rfl⟩
              simp [Book.save, contactSave, hpeople, hcall, hopen, Bind.bind, Except.bind]
          | true =>
              have hloop := printLoop_ok printed_person hinv.allocated hinv.list.chain
                hinv.length_le
              rw [← saveLoop_eq_printLoop] at hloop
              rcases hloop with ⟨out, hout⟩ | hfault
              · refine .inr ⟨_, some out, ?_, hinv⟩
                simp only [hpeople] at hout
                simp [Book.save, contactSave, hpeople, hcall, hopen, hout, Bind.bind,
                  Except.bind, Pure.pure, Except.pure]
              · refine .inl ⟨.unterminated, ?_, .inl rfl⟩
                simp only [hpeople] at hfault
                simp [Book.save, contactSave, hpeople, hcall, hopen, hfault, Bind.bind,
                  Except.bind]

/-! ## `LOAD` -/

/-- The faults of a line that does not fit. -/
def Fault.IsOverrun (f : Fault) : Prop := f = .readsPastArray ∨ f = .writesPastArray

theorem nameLoop_fault {n : Nat} (bytes : List UInt8) :
    ∀ {i : Nat} {v : Vector UInt8 n} {f : Fault}, nameLoop bytes i v = .error f → f.IsOverrun := by
  induction bytes with
  | nil =>
      intro i v f h
      exact .inl (Except.error.inj h).symm
  | cons b bytes ih =>
      intro i v f h
      rw [nameLoop] at h
      split at h
      · cases h
      · split at h
        · exact ih h
        · exact .inr (Except.error.inj h).symm

theorem phoneLoop_fault {n : Nat} (bytes : List UInt8) :
    ∀ {j : Nat} {v : Vector UInt8 n} {f : Fault}, phoneLoop bytes j v = .error f →
      f.IsOverrun := by
  induction bytes with
  | nil =>
      intro j v f h
      cases h
  | cons b bytes ih =>
      intro j v f h
      rw [phoneLoop] at h
      split at h
      · exact ih h
      · exact .inr (Except.error.inj h).symm

theorem fileMsg_ok {m n k : Nat} (buf : Vector UInt8 m) (length : Nat) (name : Vector UInt8 n)
    (phone : Vector UInt8 k) :
    (∃ f, fileMsg (some buf) length name phone = .error f ∧ f.IsOverrun) ∨
    ∃ name' phone', fileMsg (some buf) length name phone = .ok (0, name', phone') := by
  cases hname : nameLoop buf.toList 0 name with
  | error f =>
      refine .inl ⟨f, ?_, nameLoop_fault _ hname⟩
      simp only [fileMsg, hname, Bind.bind, Except.bind]
  | ok r =>
      cases hphone : phoneLoop ((buf.toList.take length).drop (r.1 + 1)) 0 phone with
      | error f =>
          refine .inl ⟨f, ?_, phoneLoop_fault _ hphone⟩
          simp only [fileMsg, hname, hphone, Bind.bind, Except.bind]
      | ok phone' =>
          refine .inr ⟨r.2, phone', ?_⟩
          simp only [fileMsg, hname, hphone, Bind.bind, Except.bind, Pure.pure, Except.pure]

/-- A line is taken apart, or does not fit. -/
theorem readLine_ok (l : Locals) (line : List UInt8) :
    (∃ f, l.readLine line = .error f ∧ f.IsOverrun) ∨ ∃ l', l.readLine line = .ok (0, l') := by
  rcases fileMsg_ok (overwrite l.buffer (line ++ [0]))
    (strlen (overwrite l.buffer (line ++ [0])).toList) l.tempName l.tempPhone with
    ⟨f, hfault, hover⟩ | ⟨name, phone, hok⟩
  · exact .inl ⟨f, by simp only [Locals.readLine, hfault, Bind.bind, Except.bind], hover⟩
  · refine .inr ⟨⟨overwrite l.buffer (line ++ [0]), name, phone⟩, ?_⟩
    simp only [Locals.readLine, hok, Bind.bind, Except.bind, Pure.pure, Except.pure]

/-- The loop of `contact_load` puts its nodes in front of the list. -/
theorem loadLoop_inv {env : Env} (lines : List (List UInt8)) :
    ∀ {log xs : List Addr} {c : Book} {l : Locals}, c.Inv log xs →
      (∃ f, loadLoop env lines l c.heap c.contact = .error f ∧ f.IsOverrun) ∨
      ∃ h' cta' ret inserted xs', loadLoop env lines l c.heap c.contact = .ok (h', cta', ret) ∧
        loadInserts env lines l c.heap c.contact = .ok inserted ∧
        Book.Inv (inserted.reverse ++ log) ⟨h', cta'⟩ xs' := by
  induction lines with
  | nil =>
      intro log xs c l h
      exact .inr ⟨_, _, none, [], xs, rfl, rfl, h⟩
  | cons line lines ih =>
      intro log xs c l h
      rcases readLine_ok l line with ⟨f, hfault, hover⟩ | ⟨l', hread⟩
      · exact .inl ⟨f, by simp [loadLoop, hfault, Bind.bind, Except.bind], hover⟩
      cases hmalloc : env.malloc c.heap.next with
      | false =>
          refine .inr ⟨_, _, _, [], xs, loadLoop_fails hread hmalloc, ?_,
            h.of_heap (Nat.le_succ _) rfl fun _ _ => rfl⟩
          simp [loadInserts, hread, malloc_fails hmalloc, Bind.bind, Except.bind]
      | true =>
          obtain ⟨h₀, h₁, hcall, hinsert, hinv⟩ := insert_in_front h hmalloc l'.toPerson
          have hturn : loadLoop env (line :: lines) l c.heap c.contact =
              loadLoop env lines l' h₁ ⟨c.contact.count + 1, some c.heap.next⟩ := by
            simp [loadLoop, hread, hcall, hinsert, Bind.bind, Except.bind]
          rw [hturn]
          rcases ih hinv with ⟨f, hfault, hover⟩ | ⟨h', cta', ret, inserted, xs', hok, hins, hinv'⟩
          · exact .inl ⟨f, hfault, hover⟩
          · refine .inr ⟨h', cta', ret, c.heap.next :: inserted, xs', hok, ?_, by simpa using hinv'⟩
            simp [loadInserts, hread, hcall, hinsert, hins, Bind.bind, Except.bind, Pure.pure,
              Except.pure]

theorem load_inv (h : c.Inv log xs) (env : Env) (f : Option (List UInt8)) :
    (∃ fault, c.load env f = .error fault ∧ fault.IsOverrun) ∨
    ∃ c' inserted xs', c.load env f = .ok c' ∧ c.loaded env f = .ok inserted ∧
      c'.Inv (inserted.reverse ++ log) xs' := by
  cases f with
  | none => exact .inr ⟨c, [], xs, rfl, rfl, h⟩
  | some content =>
      cases hopen : env.opensRead with
      | false =>
          refine .inr ⟨c, [], xs, ?_, by simp [Book.loaded, hopen], h⟩
          simp [Book.load, contactLoad, hopen, Bind.bind, Except.bind, Pure.pure, Except.pure]
      | true =>
          rcases @loadLoop_inv env (fgetsLines bufferSize content) _ _ _ .zero h with
            ⟨fault, hfault, hover⟩ | ⟨h', cta', ret, inserted, xs', hok, hins, hinv⟩
          · refine .inl ⟨fault, ?_, hover⟩
            simp [Book.load, contactLoad, hopen, hfault, Bind.bind, Except.bind]
          · refine .inr ⟨⟨h', cta'⟩, inserted, xs', ?_, by simpa [Book.loaded, hopen] using hins,
              hinv⟩
            simp [Book.load, contactLoad, hopen, hok, Bind.bind, Except.bind, Pure.pure,
              Except.pure]

/-! ## Sequences of operations -/

/-- An operation that meets its condition keeps the invariant and does what it
    is to do, or ends in one of its faults. -/
theorem step_of_meets (h : c.Inv log xs) {op : Op} (hmeets : op.Meets c) :
    (∃ f, step c op = .error f ∧ op.Excuses f) ∨
    ∃ c' inserted xs', step c op = .ok (c', inserted) ∧ c'.Inv (inserted.reverse ++ log) xs' ∧
      op.Spec log c c' := by
  cases op with
  | insert env temp name phone =>
      obtain ⟨c', inserted, ret, xs', hok, hinv⟩ := insert_inv h hmeets
      exact .inr ⟨c', inserted, xs', by rw [step, hok]; rfl, hinv, trivial⟩
  | delete name =>
      obtain ⟨c', xs', hok, hinv, hnewest⟩ := delete_newest h hmeets
      exact .inr ⟨c', [], xs', by rw [step, hok]; rfl, hinv, fun _ => hnewest,
        fun hnot => absurd hmeets hnot⟩
  | search name =>
      rcases search_ok h name with ⟨out, hok⟩ | hfault
      · exact .inr ⟨c, [], xs, by rw [step, hok]; rfl, h, trivial⟩
      · exact .inl ⟨.unterminated, by rw [step, hfault]; rfl, rfl⟩
  | ptint =>
      rcases ptint_ok h with ⟨out, hok⟩ | hfault
      · exact .inr ⟨c, [], xs, by rw [step, hok]; rfl, h, trivial⟩
      · exact .inl ⟨.unterminated, by rw [step, hfault]; rfl, rfl⟩
  | save env f =>
      rcases save_ok h env f with ⟨fault, hfault, hwhich⟩ | ⟨c', f', hok, hinv⟩
      · exact .inl ⟨fault, by rw [step, hfault]; rfl, hwhich⟩
      · exact .inr ⟨c', [], xs, by rw [step, hok]; rfl, hinv, trivial⟩
  | load env f =>
      rcases load_inv h env f with ⟨fault, hfault, hover⟩ | ⟨c', inserted, xs', hok, hins, hinv⟩
      · exact .inl ⟨fault, by rw [step, hfault]; rfl, hover⟩
      · exact .inr ⟨c', inserted, xs', by rw [step, hok, hins]; rfl, hinv, trivial⟩

/-- One that does not leaves no list, or goes through a null pointer. -/
theorem not_keeps_of_not_meets (h : c.Inv log xs) {op : Op} (hnot : ¬ op.Meets c)
    (ops : List Op) : ¬ Keeps log c (op :: ops) := by
  cases op with
  | insert env temp name phone =>
      obtain ⟨hmalloc, htemp⟩ := Classical.not_imp.mp hnot
      obtain rfl := not_not.mp htemp
      obtain ⟨c', inserted, ret, hok, hbroken⟩ := @insert_frees _ _ _ h env name phone hmalloc
      have hstep : step c (.insert env (-1) name phone) = .ok (c', inserted) := by
        rw [step, hok]
        rfl
      rw [Keeps, hstep]
      rintro ⟨⟨ys, hys⟩, -, -⟩
      exact hbroken ys hys
  | delete name =>
      have hstep : step c (.delete name) = .error .nullPointer := by
        rw [step, delete_absent h hnot]
        rfl
      rw [Keeps, hstep]
      exact id
  | search name => exact absurd trivial hnot
  | ptint => exact absurd trivial hnot
  | save env f => exact absurd trivial hnot
  | load env f => exact absurd trivial hnot

theorem keeps_iff_of_inv (ops : List Op) :
    ∀ {log xs : List Addr} {c : Book}, c.Inv log xs → (Keeps log c ops ↔ AllMeet c ops) := by
  induction ops with
  | nil => exact fun _ => Iff.rfl
  | cons op ops ih =>
      intro log xs c h
      by_cases hmeets : op.Meets c
      · rw [AllMeet, and_iff_right hmeets]
        rcases step_of_meets h hmeets with ⟨f, hfault, hexcused⟩ |
          ⟨c', inserted, xs', hok, hinv, hspec⟩
        · simp [Keeps, hfault, hexcused]
        · have hlist : ∃ ys, c'.IsListOf ys := ⟨xs', hinv.toIsListOf⟩
          simp [Keeps, hok, hlist, hspec, ih hinv]
      · exact iff_of_false (not_keeps_of_not_meets h hmeets ops) fun hall => hmeets hall.1

/-- The book as `main` has cleared it, on any heap. -/
def Book.cleared (h : Heap) : Book := ⟨h, ⟨0, none⟩⟩

theorem inv_cleared (h : Heap) : (Book.cleared h).Inv [] [] where
  list := Links.isList_nil _
  allocated := by simp
  count := rfl
  sublist := List.nil_sublist _
  lt_next := by simp

/-- A sequence of operations keeps the book a list with its count, and deletes
    the newest contact of each name, exactly if every `DELETE` names a contact
    that is there and `INSERT` never finds −1 as the value of
    `contact_insert`. -/
theorem contact_book_iff (h : Heap) (ops : List Op) :
    Keeps [] (.cleared h) ops ↔ AllMeet (.cleared h) ops :=
  keeps_iff_of_inv ops (inv_cleared h)

/-- A heap without blocks, and the name `a`. -/
def Heap.empty : Heap := ⟨fun _ => none, fun _ => ⟨none, none⟩, 0⟩

def nameA : Word nameLength := ⟨[97], by decide, by decide⟩

/-- `DELETE` of `a` from the cleared book goes through a null pointer. -/
theorem delete_from_cleared : ¬ (Book.cleared .empty).Has nameA ∧
    step (.cleared .empty) (.delete nameA) = .error .nullPointer ∧
    ¬ Keeps [] (.cleared .empty) [.delete nameA] := by
  have hinv := inv_cleared .empty
  have hnot : ¬ (Book.cleared .empty).Has nameA := by simp [hinv.has_iff]
  refine ⟨hnot, ?_, @not_keeps_of_not_meets _ _ _ hinv (.delete nameA) hnot []⟩
  rw [step, delete_absent hinv hnot]
  rfl

end LinuxLearning.ContactBook
