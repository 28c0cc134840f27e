/-
  LinuxLearning.ContactBook.RoundTrip

  What `contact_load` makes of a file that `contact_save` has written.
  `FILE_MSG` copies the bytes behind the comma up to the end of the line, the
  line feed among them, and ends neither of its two arrays with a NUL: the
  phone of a loaded contact is never the one that was saved, and its name is
  only as long as an array with the names before it in it allows.
-/

import LinuxLearning.ContactBook.Book

namespace LinuxLearning.ContactBook

open Lib

/-- A name and a phone. -/
abbrev Entry := List UInt8 × List UInt8

/-- Names of 1 to 19 characters without comma, line feed and NUL, phones of
    at most 11 characters without line feed and NUL. -/
structure Storable (e : Entry) : Prop where
  name_pos : 1 ≤ e.1.length
  name_le : e.1.length ≤ 19
  name_comma : comma ∉ e.1
  name_newline : newline ∉ e.1
  name_nul : 0 ∉ e.1
  phone_le : e.2.length ≤ 11
  phone_newline : newline ∉ e.2
  phone_nul : 0 ∉ e.2

/-- The person's arrays hold that name and that phone. -/
def Person.Holds (p : Person) (e : Entry) : Prop :=
  IsCString p.name.toList e.1 ∧ IsCString p.phone.toList e.2

/-- The block at `a` is one that `malloc` has given out, and holds `e`. -/
def Heap.Holds (h : Heap) (a : Addr) (e : Entry) : Prop :=
  a < h.next ∧ ∃ p, h.person a = some p ∧ p.Holds e

/-- The list at `head` holds the entries, in that order. -/
def Stores (h : Heap) (head : Option Addr) (es : List Entry) : Prop :=
  ∃ xs, h.links.IsList head xs ∧ List.Forall₂ h.Holds xs es

/-- What is saved at `head` and loaded into an empty book is a book with the
    same entries, in whatever order, and their number as its count. -/
def RoundTrips (saving loading : Env) (h h₀ : Heap) (head : Option Addr) (es : List Entry)
    (f : Option (List UInt8)) : Prop :=
  ∃ h₁ f' ret h₂ cta ret',
    contactSave saving h head f = .ok (h₁, f', ret) ∧
    contactLoad loading h₀ ⟨0, none⟩ f' = .ok (h₂, cta, ret') ∧
    (∃ es', Stores h₂ cta.people es' ∧ es'.Perm es) ∧ cta.count = es.length

/-! ## The heap -/

/-- `h'` is `h` with one more block, and that block holds `p`. -/
structure Heap.GrownBy (h h' : Heap) (p : Person) : Prop where
  next : h'.next = h.next + 1
  links : h'.links = h.links
  person : h'.person = Function.update h.person h.next (some p)

/-- What a call of `malloc` that succeeds and a store in the new block do. -/
theorem malloc_some {env : Env} {h h' : Heap} {c : Addr}
    (hmalloc : h.malloc env = (some c, h')) (p : Person) :
    c = h.next ∧ h.GrownBy (h'.setPerson c p) p := by
  unfold Heap.malloc at hmalloc
  split at hmalloc
  · obtain ⟨hc, rfl⟩ := Prod.mk.inj hmalloc
    obtain rfl := Option.some.inj hc
    exact ⟨rfl, rfl, rfl, by simp [Heap.setPerson]⟩
  · exact absurd (congrArg Prod.fst hmalloc) (by simp)

theorem Heap.GrownBy.person_of_lt {h h' : Heap} {p : Person} (hg : h.GrownBy h' p) {a : Addr}
    (ha : a < h.next) : h'.person a = h.person a := by
  rw [hg.person, Function.update_of_ne (ne_of_lt ha)]

/-! ## The file -/

/-- The line of an entry, without its line feed. -/
def lineOf (e : Entry) : List UInt8 := e.1 ++ comma :: e.2

/-- The lines of the entries. -/
def fileOf (es : List Entry) : List UInt8 := es.flatMap (lineOf · ++ [newline])

/-- A person is printed as the line of its entry. -/
theorem printPerson_ok {p : Person} {e : Entry} (hp : p.Holds e) :
    printPerson p = .ok (lineOf e ++ [newline]) := by
  simp [printPerson, printString, hp.1.cstring?_eq, hp.2.cstring?_eq, lineOf, Bind.bind,
    Except.bind, Pure.pure, Except.pure]

/-- The loop of `contact_save` writes the lines of the entries it comes by. -/
theorem saveLoop_ok {h : Heap} {xs : List Addr} {es : List Entry}
    (hes : List.Forall₂ h.Holds xs es) :
    ∀ {prev cur : Option Addr} {fuel : Nat}, h.links.Chain prev cur xs → xs.length ≤ fuel →
      saveLoop h fuel cur = .ok (fileOf es) := by
  induction hes with
  | nil =>
      intro prev cur fuel hchain _
      obtain rfl : cur = none := hchain
      cases fuel <;> rfl
  | cons hhead _ ih =>
      intro prev cur fuel hchain hfuel
      rw [List.length_cons] at hfuel
      obtain ⟨rfl, -, hrest⟩ := hchain
      obtain ⟨-, p, hp, hholds⟩ := hhead
      obtain ⟨n, rfl⟩ : ∃ n, fuel = n + 1 := Nat.exists_eq_succ_of_ne_zero (by omega)
      have hloop := ih hrest (Nat.le_of_succ_le_succ hfuel)
      simp only [saveLoop, hp, printPerson_ok hholds, hloop, fileOf, List.flatMap_cons,
        Bind.bind, Except.bind, Pure.pure, Except.pure]

/-- The nodes of a list are blocks that `malloc` has given out. -/
theorem lt_next_of_mem {h : Heap} {xs : List Addr} {es : List Entry}
    (hes : List.Forall₂ h.Holds xs es) : ∀ a ∈ xs, a < h.next := by
  induction hes with
  | nil => simp
  | cons hhead _ ih => exact List.forall_mem_cons.mpr ⟨hhead.1, ih⟩

/-- Blocks hold what they held where the heap has only grown. -/
theorem Heap.Holds.grow {h h' : Heap} {a : Addr} {e : Entry} (ha : h.Holds a e)
    (hnext : h.next ≤ h'.next) (hsame : ∀ b < h.next, h'.person b = h.person b) :
    h'.Holds a e := by
  obtain ⟨hlt, p, hp, hholds⟩ := ha
  exact ⟨lt_of_lt_of_le hlt hnext, p, by rw [hsame a hlt, hp], hholds⟩

/-- A book that is not empty is written as the lines of its entries. -/
theorem contactSave_writes {env : Env} {h h₁ : Heap} {head : Option Addr} {es : List Entry}
    {f f' : Option (List UInt8)} {ret : Option Int} (hes : Stores h head es) (hne : es ≠ [])
    (hsave : contactSave env h head f = .ok (h₁, f', ret)) : f' = some (fileOf es) := by
  obtain ⟨xs, hlist, hall⟩ := hes
  cases head with
  | none =>
      obtain rfl : xs = [] := hlist.eq_nil
      exact absurd (List.forall₂_nil_left_iff.mp hall) hne
  | some a =>
      simp only [contactSave] at hsave
      split at hsave
      · cases hsave
      next c h' hmalloc =>
        obtain ⟨rfl, hgrown⟩ := malloc_some hmalloc ⟨.replicate _ 0, .replicate _ 0⟩
        split at hsave
        · have hlen : xs.length ≤ h.next + 1 :=
            Nat.le_succ_of_le (hlist.length_le (lt_next_of_mem hall))
          have hall' := hall.imp fun a e ha =>
            ha.grow (by rw [hgrown.next]; exact Nat.le_succ _) fun b hb => hgrown.person_of_lt hb
          rw [saveLoop_ok hall' (hgrown.links ▸ hlist.chain) (by rw [hgrown.next]; exact hlen)]
            at hsave
          injection hsave with hsave
          exact (congrArg (·.2.1) hsave).symm
        · cases hsave

/-! ## The splitter -/

/-- A byte stored at `i`, and the others behind it. -/
theorem toList_set_append {n i : Nat} (v : Vector UInt8 n) (hi : i < n) (b : UInt8)
    (l : List UInt8) :
    (v.set i b).toList.take (i + 1) ++ l ++ (v.set i b).toList.drop (i + 1 + l.length) =
      v.toList.take i ++ b :: l ++ v.toList.drop (i + (b :: l).length) := by
  have hlen : i < v.toList.length := by simpa using hi
  rw [Vector.toList_set, List.drop_set_of_lt (by omega), List.take_set,
    List.take_succ_eq_append_getElem hlen, List.length_cons]
  simp [hi.le]
  omega

/-- The loop over the name stops at the first comma, with the bytes before it
    in the array. -/
theorem nameLoop_line {n : Nat} {name : List UInt8} (rest : List UInt8) (hname : comma ∉ name) :
    ∀ {i : Nat} {v : Vector UInt8 n}, i + name.length ≤ n →
      ∃ v', nameLoop (name ++ comma :: rest) i v = .ok (i + name.length, v') ∧
        v'.toList = v.toList.take i ++ name ++ v.toList.drop (i + name.length) := by
  induction name with
  | nil =>
      intro i v _
      exact ⟨v, by simp [nameLoop], by simp⟩
  | cons b name ih =>
      intro i v hfits
      rw [List.length_cons] at hfits
      obtain ⟨hb, hrest⟩ := not_or.mp (List.mem_cons.not.mp hname)
      have hi : i < n := by omega
      obtain ⟨v', hloop, hv'⟩ := ih hrest (i := i + 1) (v := v.set i b) (by omega)
      refine ⟨v', ?_, by rw [hv', toList_set_append v hi]⟩
      rw [List.cons_append, nameLoop, if_neg (Ne.symm hb), dif_pos hi, hloop, List.length_cons]
      congr 2
      omega

/-- The loop over the phone stores all bytes that it is given. -/
theorem phoneLoop_ok {n : Nat} (bytes : List UInt8) :
    ∀ {j : Nat} {v : Vector UInt8 n}, j + bytes.length ≤ n →
      ∃ v', phoneLoop bytes j v = .ok v' ∧
        v'.toList = v.toList.take j ++ bytes ++ v.toList.drop (j + bytes.length) := by
  induction bytes with
  | nil =>
      intro j v _
      exact ⟨v, rfl, by simp⟩
  | cons b bytes ih =>
      intro j v hfits
      rw [List.length_cons] at hfits
      have hj : j < n := by omega
      obtain ⟨v', hloop, hv'⟩ := ih (j := j + 1) (v := v.set j b) (by omega)
      exact ⟨v', by rw [phoneLoop, dif_pos hj, hloop], by rw [hv', toList_set_append v hj]⟩

/-- `FILE_MSG` on a line with a comma: what is before the first one goes to
    the front of the name array, what is behind it to the front of the phone
    array, and the rest of both stays. -/
theorem fileMsg_line {m n k : Nat} {buf : Vector UInt8 m} {name phone rest : List UInt8}
    (hbuf : buf.toList = name ++ comma :: phone ++ rest) (hname : comma ∉ name)
    (hn : name.length ≤ n) (hk : phone.length ≤ k) (v : Vector UInt8 n) (w : Vector UInt8 k) :
    ∃ v' w', fileMsg (some buf) (name ++ comma :: phone).length v w = .ok (0, v', w') ∧
      v'.toList = name ++ v.toList.drop name.length ∧
      w'.toList = phone ++ w.toList.drop phone.length := by
  obtain ⟨v', hv, hv'⟩ := nameLoop_line (phone ++ rest) hname (i := 0) (v := v) (by omega)
  obtain ⟨w', hw, hw'⟩ := phoneLoop_ok phone (j := 0) (v := w) (by omega)
  refine ⟨v', w', ?_, by simpa using hv', by simpa using hw'⟩
  have hphone : (buf.toList.take (name ++ comma :: phone).length).drop (name.length + 1) =
      phone := by
    rw [hbuf, List.take_left, List.drop_length_add_append]
    rfl
  have hbuf' : buf.toList = name ++ comma :: (phone ++ rest) := by rw [hbuf]; simp
  rw [Nat.zero_add] at hv
  simp only [fileMsg, hbuf' ▸ hv, hphone, hw, Bind.bind, Except.bind, Pure.pure, Except.pure]

/-- The line of a storable entry leaves its name in front of the name array
    and its phone with the line feed in front of the phone array; behind them
    stays what was there. -/
theorem readLine_lineOf {l : Locals} {e : Entry} (he : Storable e) :
    ∃ l', l.readLine (lineOf e ++ [newline]) = .ok (0, l') ∧
      l'.tempName.toList = e.1 ++ l.tempName.toList.drop e.1.length ∧
      l'.tempPhone.toList = e.2 ++ newline :: l.tempPhone.toList.drop (e.2.length + 1) := by
  have hname := he.name_le
  have hphone := he.phone_le
  have hline : lineOf e ++ [newline] = e.1 ++ comma :: (e.2 ++ [newline]) := by simp [lineOf]
  have hnul : 0 ∉ lineOf e ++ [newline] := by
    simp [lineOf, he.name_nul, he.phone_nul, comma, newline]
  have hfits : (lineOf e ++ [newline] ++ [0]).length ≤ bufferSize := by
    rw [hline]
    simp only [List.length_append, List.length_cons, List.length_nil]
    show _ ≤ 1024
    omega
  -- the buffer starts with the line and a NUL
  obtain ⟨rest, hbuffer⟩ : ∃ rest, (overwrite l.buffer (lineOf e ++ [newline] ++ [0])).toList =
      lineOf e ++ [newline] ++ 0 :: rest :=
    ⟨_, by rw [toList_overwrite _ hfits, List.append_assoc _ [0], List.singleton_append]⟩
  obtain ⟨v, w, hmsg, hv, hw⟩ := fileMsg_line (hline ▸ hbuffer) he.name_comma
    (n := nameLength) (k := nameLength) (show _ ≤ 20 by omega)
    (show _ ≤ 20 by rw [List.length_append, List.length_singleton]; omega) l.tempName l.tempPhone
  refine ⟨⟨overwrite l.buffer (lineOf e ++ [newline] ++ [0]), v, w⟩, ?_, hv, by simpa using hw⟩
  simp only [Locals.readLine, hbuffer, strlen_append hnul, Bind.bind, Except.bind, Pure.pure,
    Except.pure]
  rw [hline, hmsg]

/-! ## Loading -/

/-- A block that is not on the list is put in front of it. -/
theorem contactInsert_ok {h : Heap} {head : Option Addr} {xs : List Addr} {c : Addr}
    (hlist : h.links.IsList head xs) (halloc : ∀ a ∈ xs, (h.person a).isSome) (hc : c ∉ xs) :
    ∃ h', contactInsert h c head = .ok (h', some c) ∧ h'.links.IsList (some c) (c :: xs) ∧
      h'.person = h.person ∧ h'.next = h.next := by
  have hfront := hlist.pushFront hc
  rw [Links.pushFront_head] at hfront
  refine ⟨{ h with links := (h.links.pushFront head c).1 }, ?_, hfront, rfl, rfl⟩
  cases head with
  | none => rfl
  | some first =>
      obtain ⟨rest, rfl⟩ := hlist.eq_cons
      have hfirst := halloc first (List.mem_cons_self ..)
      rw [contactInsert, if_neg (by simpa using Option.isSome_iff_ne_none.mp hfirst)]

/-- The block at `a` holds what the line of `e` leaves in front of the arrays:
    the name, and the phone with the line feed. -/
def Heap.HoldsLine (h : Heap) (a : Addr) (e : Entry) : Prop :=
  a < h.next ∧ ∃ p, h.person a = some p ∧
    e.1 <+: p.name.toList ∧ e.2 ++ [newline] <+: p.phone.toList

theorem Heap.HoldsLine.grow {h h' : Heap} {a : Addr} {e : Entry} (ha : h.HoldsLine a e)
    (hnext : h.next ≤ h'.next) (hsame : ∀ b < h.next, h'.person b = h.person b) :
    h'.HoldsLine a e := by
  obtain ⟨hlt, p, hp, hholds⟩ := ha
  exact ⟨lt_of_lt_of_le hlt hnext, p, by rw [hsame a hlt, hp], hholds⟩

/-- `h'` and `cta'` are the book with the nodes `ys` in front, for the first
    of the entries, and for all of them where no call of `malloc` fails. -/
structure Loaded (env : Env) (es : List Entry) (h : Heap) (cta : Contact) (xs : List Addr)
    (h' : Heap) (cta' : Contact) (ys : List Addr) : Prop where
  list : h'.links.IsList cta'.people (ys ++ xs)
  lines : List.Forall₂ h'.HoldsLine ys.reverse (es.take ys.length)
  next : h.next ≤ h'.next
  same : ∀ a < h.next, h'.person a = h.person a
  count : cta'.count = cta.count + ys.length
  all : (∀ a, env.malloc a = true) → ys.length = es.length

/-- What the two `memcpy` take of the arrays. -/
theorem toList_phone (l : Locals) :
    l.toPerson.phone.toList = l.tempPhone.toList.take phoneLength := by
  apply List.ext_getElem
  · simp [phoneLength, nameLength]
  · intro i h₁ h₂
    simp [Locals.toPerson]

/-- A turn of the loop of `contact_load` without memory ends it. -/
theorem loadLoop_fails {env : Env} {line : List UInt8} {lines : List (List UInt8)} {l l' : Locals}
    {h : Heap} {cta : Contact} (hread : l.readLine line = .ok (0, l'))
    (hmalloc : env.malloc h.next = false) :
    loadLoop env (line :: lines) l h cta = .ok ({ h with next := h.next + 1 }, cta, some (-1)) := by
  simp [loadLoop, hread, Heap.malloc, hmalloc, Bind.bind, Except.bind]

/-- Any other turn puts one block with the new person in front of the list. -/
theorem loadLoop_stores {env : Env} {line : List UInt8} (lines : List (List UInt8))
    {l l' : Locals} {h : Heap} {cta : Contact} {xs : List Addr}
    (hread : l.readLine line = .ok (0, l')) (hmalloc : env.malloc h.next = true)
    (hlist : h.links.IsList cta.people xs)
    (halloc : ∀ a ∈ xs, a < h.next ∧ (h.person a).isSome) :
    ∃ h₁, loadLoop env (line :: lines) l h cta =
        loadLoop env lines l' h₁ ⟨cta.count + 1, some h.next⟩ ∧
      h₁.links.IsList (some h.next) (h.next :: xs) ∧ h₁.next = h.next + 1 ∧
      h₁.person = Function.update h.person h.next (some l'.toPerson) := by
  obtain ⟨h₀, hcall⟩ : ∃ h₀, h.malloc env = (some h.next, h₀) := by simp [Heap.malloc, hmalloc]
  obtain ⟨-, hgrown⟩ := malloc_some hcall l'.toPerson
  obtain ⟨h₁, hinsert, hlist₁, hperson, hnext⟩ := contactInsert_ok (hgrown.links ▸ hlist)
    (fun a ha => by
      rw [hgrown.person_of_lt (halloc a ha).1]
      exact (halloc a ha).2)
    (fun hmem => lt_irrefl _ (halloc _ hmem).1)
  refine ⟨h₁, ?_, hlist₁, hnext.trans hgrown.next, hperson.trans hgrown.person⟩
  simp [loadLoop, hread, hcall, hinsert, Bind.bind, Except.bind]

/-- The loop of `contact_load` on the lines of storable entries. -/
theorem loadLoop_lines {env : Env} {es : List Entry} (hes : ∀ e ∈ es, Storable e) :
    ∀ {l : Locals} {h : Heap} {cta : Contact} {xs : List Addr},
      h.links.IsList cta.people xs → (∀ a ∈ xs, a < h.next ∧ (h.person a).isSome) →
      ∃ h' cta' ret ys,
        loadLoop env (es.map (lineOf · ++ [newline])) l h cta = .ok (h', cta', ret) ∧
        Loaded env es h cta xs h' cta' ys := by
  induction es with
  | nil =>
      intro l h cta xs hlist _
      exact ⟨h, cta, none, [], rfl, hlist, .nil, le_rfl, fun _ _ => rfl, by simp, fun _ => rfl⟩
  | cons e es ih =>
      intro l h cta xs hlist halloc
      rw [List.forall_mem_cons] at hes
      obtain ⟨l', hread, hname, hphone⟩ := readLine_lineOf (l := l) hes.1
      rw [List.map_cons]
      cases hmalloc : env.malloc h.next with
      | false =>
          refine ⟨_, cta, some (-1), [], loadLoop_fails hread hmalloc, hlist, .nil,
            Nat.le_succ _, fun _ _ => rfl, by simp, fun hall => ?_⟩
          rw [hall] at hmalloc
          cases hmalloc
      | true =>
          obtain ⟨h₁, hturn, hlist₁, hnext, hperson⟩ :=
            loadLoop_stores (es.map (lineOf · ++ [newline])) hread hmalloc hlist halloc
          have hsame : ∀ a < h.next, h₁.person a = h.person a := fun a ha => by
            rw [hperson, Function.update_of_ne (ne_of_lt ha)]
          have halloc₁ : ∀ a ∈ h.next :: xs, a < h₁.next ∧ (h₁.person a).isSome := by
            rw [List.forall_mem_cons, hnext]
            refine ⟨⟨Nat.lt_succ_self _, by simp [hperson]⟩, fun a ha => ?_⟩
            rw [hsame a (halloc a ha).1]
            exact ⟨Nat.lt_succ_of_lt (halloc a ha).1, (halloc a ha).2⟩
          obtain ⟨h', cta', ret, ys, hloop, hloaded⟩ :=
            @ih hes.2 l' h₁ ⟨cta.count + 1, some h.next⟩ _ hlist₁ halloc₁
          have hlt : h.next < h₁.next := hnext ▸ Nat.lt_succ_self _
          -- the block is still there at the end, with what the line left
          have hblock : h'.HoldsLine h.next e := by
            refine ⟨lt_of_lt_of_le hlt hloaded.next, l'.toPerson, ?_, ?_, ?_⟩
            · rw [hloaded.same _ hlt, hperson, Function.update_self]
            · exact hname ▸ List.prefix_append ..
            · rw [toList_phone, hphone]
              refine List.prefix_take_iff.mpr ⟨⟨_, (List.append_cons ..).symm⟩, ?_⟩
              have := hes.1.phone_le
              simp only [List.length_append, List.length_singleton]
              show _ ≤ 12
              omega
          refine ⟨h', cta', ret, ys ++ [h.next], hturn.trans hloop, ?_, ?_, ?_, ?_, ?_, ?_⟩
          · simpa using hloaded.list
          · rw [List.reverse_append, List.length_append]
            exact .cons hblock hloaded.lines
          · exact hlt.le.trans hloaded.next
          · intro a ha
            rw [hloaded.same a (ha.trans hlt), hsame a ha]
          · rw [hloaded.count, List.length_append, List.length_singleton]
            show cta.count + 1 + _ = _
            omega
          · intro hall
            rw [List.length_append, hloaded.all hall]
            rfl

/-- `fgets` reads what was saved line by line. -/
theorem fgetsLines_fileOf {es : List Entry} (hes : ∀ e ∈ es, Storable e) :
    fgetsLines bufferSize (fileOf es) = es.map (lineOf · ++ [newline]) := by
  have hlines : ∀ l ∈ es.map lineOf, newline ∉ l ∧ l.length + 1 < bufferSize := by
    rw [List.forall_mem_map]
    intro e he
    have hname := (hes e he).name_le
    have hphone := (hes e he).phone_le
    have hcomma : newline ≠ comma := by decide
    refine ⟨by simp [lineOf, (hes e he).name_newline, (hes e he).phone_newline, hcomma], ?_⟩
    simp only [lineOf, List.length_append, List.length_cons]
    show _ < 1024
    omega
  simpa [fileOf, List.flatMap_map, List.map_map, Function.comp_def] using
    fgetsLines_flatMap hlines

/-- What `contact_load` makes of a saved file: the entries, the last one
    first, or the first of them where memory runs out, and each phone with the
    line feed of its line. -/
theorem contactLoad_fileOf {env : Env} {es : List Entry} (hes : ∀ e ∈ es, Storable e)
    (hopen : env.opensRead = true) (h₀ : Heap) :
    ∃ h cta ret ys, contactLoad env h₀ ⟨0, none⟩ (some (fileOf es)) = .ok (h, cta, ret) ∧
      Loaded env es h₀ ⟨0, none⟩ [] h cta ys := by
  simp only [contactLoad, hopen, if_true, fgetsLines_fileOf hes]
  exact loadLoop_lines hes (Links.isList_nil _) (by simp)

/-! ## The round trip -/

theorem exists_of_mem_right {α β : Type} {R : α → β → Prop} {xs : List α} {ys : List β}
    (h : List.Forall₂ R xs ys) : ∀ y ∈ ys, ∃ x ∈ xs, R x y := by
  induction h with
  | nil => simp
  | cons hxy _ ih =>
      rw [List.forall_mem_cons]
      refine ⟨⟨_, List.mem_cons_self .., hxy⟩, fun y hy => ?_⟩
      obtain ⟨x, hx, hxy⟩ := ih y hy
      exact ⟨x, List.mem_cons_of_mem _ hx, hxy⟩

/-- Every phone in a book that was loaded from a saved file has a line feed. -/
theorem Loaded.phone_newline {env : Env} {es es' : List Entry} {h₀ h : Heap} {cta : Contact}
    {ys : List Addr} (hloaded : Loaded env es h₀ ⟨0, none⟩ [] h cta ys)
    (hes : ∀ e ∈ es, Storable e) (hes' : Stores h cta.people es') :
    ∀ e ∈ es', newline ∈ e.2 := by
  intro e he
  obtain ⟨xs, hlist, hall⟩ := hes'
  obtain rfl : xs = ys := hlist.unique (by simpa using hloaded.list)
  obtain ⟨a, ha, -, p, hp, hholds⟩ := exists_of_mem_right hall e he
  obtain ⟨e₀, he₀, -, p', hp', -, hphone⟩ :=
    exists_of_mem_right hloaded.lines.flip a (List.mem_reverse.mpr ha)
  obtain rfl : p = p' := Option.some.inj (hp.symm.trans hp')
  have hnul : 0 ∉ e₀.2 ++ [newline] := by
    simp [(hes e₀ (List.mem_of_mem_take he₀)).phone_nul, newline]
  exact (hholds.2.extends hphone hnul).subset (by simp)

/-- A book that is not empty does not come back. -/
theorem not_roundTrips {saving loading : Env} {h h₀ : Heap} {head : Option Addr}
    {es : List Entry} (f : Option (List UInt8)) (hread : loading.opensRead = true)
    (hstores : Stores h head es) (hes : ∀ e ∈ es, Storable e) (hne : es ≠ []) :
    ¬ RoundTrips saving loading h h₀ head es f := by
  rintro ⟨h₁, f', ret, h₂, cta, ret', hsave, hload, ⟨es', hes', hperm⟩, -⟩
  obtain rfl := contactSave_writes hstores hne hsave
  obtain ⟨h₃, cta₃, ret₃, ys, hload₃, hloaded⟩ := contactLoad_fileOf hes hread h₀
  obtain ⟨rfl, rfl, -⟩ : h₃ = h₂ ∧ cta₃ = cta ∧ ret₃ = ret' := by
    simpa using hload₃.symm.trans hload
  obtain ⟨e, he⟩ := List.exists_mem_of_ne_nil es hne
  exact (hes e he).phone_newline (hloaded.phone_newline hes hes' e (hperm.mem_iff.mpr he))

/-- What `contact_save` writes and `contact_load` reads into an empty book is
    the same book exactly when it is empty. -/
theorem round_trips_iff {saving loading : Env} {h h₀ : Heap} {head : Option Addr}
    {es : List Entry} (f : Option (List UInt8)) (hwrite : saving.opensWrite = true)
    (hread : loading.opensRead = true) (hstores : Stores h head es)
    (hes : ∀ e ∈ es, Storable e) :
    RoundTrips saving loading h h₀ head es f ↔ es = [] := by
  constructor
  · intro hround
    by_contra hne
    exact not_roundTrips f hread hstores hes hne hround
  · rintro rfl
    obtain ⟨xs, hlist, hall⟩ := hstores
    obtain rfl := List.forall₂_nil_right_iff.mp hall
    obtain rfl : head = none := hlist.chain
    exact ⟨h, some [], some (-1), h₀, ⟨0, none⟩, none, by simp [contactSave, hwrite],
      by simp [contactLoad, hread, fgetsLines, linesFrom, loadLoop],
      ⟨[], ⟨[], Links.isList_nil _, .nil⟩, .refl _⟩, rfl⟩

/-- A machine with memory and a file that opens. -/
def plentiful : Env :=
  { malloc := fun _ => true, garbage := fun _ => ⟨.replicate _ 0, .replicate _ 0⟩,
    opensWrite := true, opensRead := true }

/-- A heap with the one block `a,1`. -/
def oneBlock : Heap :=
  { person := fun a =>
      if a = 0 then some ⟨overwrite (.replicate _ 0) [97], overwrite (.replicate _ 0) [49]⟩
      else none,
    links := (Links.build [0]).1, next := 1 }

theorem stores_oneBlock : Stores oneBlock (some 0) [([97], [49])] :=
  ⟨[0], Links.isList_build (by simp),
    .cons ⟨by decide, _, rfl, ⟨by decide, by decide⟩, ⟨by decide, by decide⟩⟩ .nil⟩

theorem storable_a1 : ∀ e ∈ [(([97], [49]) : Entry)], Storable e := by
  simp only [List.forall_mem_singleton]
  constructor <;> decide

/-- The book with the one contact `a,1`. -/
theorem round_trips_iff_a1 :
    RoundTrips plentiful plentiful oneBlock ⟨fun _ => none, fun _ => ⟨none, none⟩, 0⟩ (some 0)
      [([97], [49])] none ↔ [(([97], [49]) : Entry)] = [] :=
  round_trips_iff none rfl rfl stores_oneBlock storable_a1

/-- The contact `a,1` comes back with a line feed behind its phone. -/
theorem one_contact_lost :
    Stores oneBlock (some 0) [([97], [49])] ∧ (∀ e ∈ [(([97], [49]) : Entry)], Storable e) ∧
    ¬ RoundTrips plentiful plentiful oneBlock ⟨fun _ => none, fun _ => ⟨none, none⟩, 0⟩ (some 0)
      [([97], [49])] none :=
  ⟨stores_oneBlock, storable_a1,
    not_roundTrips none rfl stores_oneBlock storable_a1 (by simp)⟩

end LinuxLearning.ContactBook
