/-
  LinuxLearning.ContactBook.Operations

  The six operations of the menu on one contact book: `INSERT`, `DELETE`,
  `SEARCH`, `PTINT`, `SAVE` and `LOAD`, with `contact_search`,
  `contact_travel` and `contact_remove`.

  Two functions fall off their end and have their value used all the same.
  `contact_search` is taken to return null there; what `INSERT` finds as the
  value of `contact_insert` is not determined, and comes with the operation.
-/

import LinuxLearning.ContactBook.RoundTrip

namespace LinuxLearning.ContactBook

open Lib

/-- The book: the blocks, and the `contact` that `main` has allocated. -/
structure Book where
  heap : Heap
  contact : Contact

/-- A word that `scanf("%s", ..)` stores in an array of `n` bytes with room for
    the NUL behind it. -/
structure Word (n : Nat) where
  bytes : List UInt8
  no_nul : 0 ∉ bytes
  fits : bytes.length < n

/-- The array after the word was stored in it. -/
def Word.storedIn {n : Nat} (w : Word n) (v : Vector UInt8 n) : Vector UInt8 n :=
  overwrite v (w.bytes ++ [0])

theorem Word.isCString_storedIn {n : Nat} (w : Word n) (v : Vector UInt8 n) :
    IsCString (w.storedIn v).toList w.bytes := by
  refine ⟨w.no_nul, ?_⟩
  rw [storedIn, toList_overwrite v (by simpa using Nat.succ_le_of_lt w.fits)]
  exact List.prefix_append ..

/-! ## Walks over the list -/

/-- `contact_search` from `item` on, for `fuel` turns. -/
def contactSearch (h : Heap) (name : Vector UInt8 nameLength) :
    Nat → Option Addr → Except Fault (Option Addr)
  -- the end of the function, without a `return`
  | _, none => .ok none
  | 0, some _ => .error .diverges
  | fuel + 1, some item =>
      match h.person item with
      | none => .error .notAllocated
      | some p =>
          match strcmpEq? p.name.toList name.toList with
          | none => .error .readsPastArray
          | some true => .ok (some item)
          | some false => contactSearch h name fuel (h.links item).next

/-- `printf("name:%s,phone:%s\n", item->name, item->phone)` -/
def printContact (p : Person) : Except Fault (List UInt8) := do
  let name ← printString p.name
  let phone ← printString p.phone
  return [110, 97, 109, 101, 58] ++ name ++ [44, 112, 104, 111, 110, 101, 58] ++ phone ++ [newline]

/-- A walk that prints every person from `c` on, for `fuel` turns. -/
def printLoop (h : Heap) (print : Person → Except Fault (List UInt8)) :
    Nat → Option Addr → Except Fault (List UInt8)
  | _, none => .ok []
  | 0, some _ => .error .diverges
  | fuel + 1, some c =>
      match h.person c with
      | none => .error .notAllocated
      | some p => do
          let line ← print p
          let rest ← printLoop h print fuel (h.links c).next
          return line ++ rest

/-- `contact_travel`: what it prints. -/
def contactTravel (h : Heap) (ps : Option Addr) : Except Fault (List UInt8) :=
  printLoop h printContact h.next ps

/-- The loop of `contact_save` is such a walk. -/
theorem saveLoop_eq_printLoop (h : Heap) (fuel : Nat) (c : Option Addr) :
    saveLoop h fuel c = printLoop h printPerson fuel c := by
  induction fuel generalizing c with
  | zero => cases c <;> rfl
  | succ fuel ih =>
      cases c with
      | none => rfl
      | some c =>
          cases hperson : h.person c with
          | none => simp only [saveLoop, printLoop, hperson]
          | some p => simp only [saveLoop, printLoop, hperson, ih]

/-! ## Unlinking -/

/-- `free(a)` -/
def Heap.free (h : Heap) (a : Addr) : Heap :=
  { h with person := Function.update h.person a none }

/-- A pointer that may be written through if it is not null. -/
def Heap.valid (h : Heap) : Option Addr → Bool
  | none => true
  | some a => (h.person a).isSome

/-- `contact_remove`, with the head pointer that `head` points to. -/
def contactRemove (h : Heap) (people : Option Addr) (head : Option Addr) :
    Except Fault (Heap × Option Addr) :=
  match people with
  -- `List_remove` reads `item->next`
  | none => .error .nullPointer
  | some item =>
      if (h.person item).isSome && h.valid (h.links item).next && h.valid (h.links item).prev then
        let r := h.links.unlink head item
        .ok ({ h with links := (r.1.setNext item none).setPrev item none }, r.2)
      else .error .notAllocated

/-! ## The operations -/

namespace Book

/-- `INSERT`: the book, the nodes it inserted, and the value it returns.
    `temp` is what it finds as the value of `contact_insert`. -/
def insert (env : Env) (temp : Int) (name : Word nameLength) (phone : Word phoneLength)
    (c : Book) : Except Fault (Book × List Addr × Int) :=
  match c.heap.malloc env with
  | (none, h) => .ok ({ c with heap := h }, [], -1)
  | (some p, h) => do
      let h := h.setPerson p
        ⟨name.storedIn (env.garbage p).name, phone.storedIn (env.garbage p).phone⟩
      let (h, people) ← contactInsert h p c.contact.people
      if temp = -1 then
        -- frees a block that is on the list
        return (⟨h.free p, { c.contact with people := people }⟩, [p], -1)
      else return (⟨h, ⟨c.contact.count + 1, people⟩⟩, [p], 0)

/-- `PTINT`: what it prints. -/
def ptint (c : Book) : Except Fault (List UInt8) := contactTravel c.heap c.contact.people

/-- The search of `SEARCH` and `DELETE`, for the word that they have read into
    their cleared array. -/
def find (name : Word nameLength) (c : Book) : Except Fault (Option Addr) :=
  contactSearch c.heap (name.storedIn (.replicate _ 0)) c.heap.next c.contact.people

/-- `SEARCH`: the contact it prints, `none` for the message that there is
    none. -/
def search (name : Word nameLength) (c : Book) : Except Fault (Option (List UInt8)) := do
  match ← c.find name with
  | none => return none
  | some p =>
      match c.heap.person p with
      | none => .error .notAllocated
      | some person => return some (← printContact person)

/-- `DELETE`; it goes on after the message that there is no such contact. -/
def delete (name : Word nameLength) (c : Book) : Except Fault Book := do
  let p ← c.find name
  let (h, people) ← contactRemove c.heap p c.contact.people
  return ⟨match p with
    | none => h
    | some p => h.free p, ⟨c.contact.count - 1, people⟩⟩

/-- `SAVE`, with the content of the file before and after. -/
def save (env : Env) (f : Option (List UInt8)) (c : Book) :
    Except Fault (Book × Option (List UInt8)) := do
  let (h, f, _) ← contactSave env c.heap c.contact.people f
  return ({ c with heap := h }, f)

/-- `LOAD`, of a file with that content. -/
def load (env : Env) (f : Option (List UInt8)) (c : Book) : Except Fault Book := do
  let (h, contact, _) ← contactLoad env c.heap c.contact f
  return ⟨h, contact⟩

end Book

/-- The nodes that the loop of `contact_load` puts on the list, in that
    order. -/
def loadInserts (env : Env) : List (List UInt8) → Locals → Heap → Contact →
    Except Fault (List Addr)
  | [], _, _, _ => .ok []
  | line :: lines, l, h, cta => do
      let (ret, l) ← l.readLine line
      if ret ≠ 0 then loadInserts env lines l h cta
      else
        match h.malloc env with
        | (none, _) => .ok []
        | (some c, h) => do
            let (h, people) ← contactInsert (h.setPerson c l.toPerson) c cta.people
            let inserted ← loadInserts env lines l h ⟨cta.count + 1, people⟩
            return c :: inserted

/-- The nodes that `LOAD` inserts. -/
def Book.loaded (env : Env) (f : Option (List UInt8)) (c : Book) : Except Fault (List Addr) :=
  match f with
  | some content =>
      if env.opensRead then loadInserts env (fgetsLines bufferSize content) .zero c.heap c.contact
      else .ok []
  | none => .ok []

/-- A choice from the menu, with what the user types and what the system
    decides. -/
inductive Op where
  | insert (env : Env) (temp : Int) (name : Word nameLength) (phone : Word phoneLength)
  | delete (name : Word nameLength)
  | search (name : Word nameLength)
  | ptint
  | save (env : Env) (f : Option (List UInt8))
  | load (env : Env) (f : Option (List UInt8))

/-- The book after an operation, and the nodes that it inserted, in that
    order. -/
def step (c : Book) : Op → Except Fault (Book × List Addr)
  | .insert env temp name phone => (c.insert env temp name phone).map fun r => (r.1, r.2.1)
  | .delete name => (c.delete name).map fun c' => (c', [])
  | .search name => (c.search name).map fun _ => (c, [])
  | .ptint => c.ptint.map fun _ => (c, [])
  | .save env f => (c.save env f).map fun r => (r.1, [])
  | .load env f => do
      let c' ← c.load env f
      let inserted ← c.loaded env f
      return (c', inserted)

end LinuxLearning.ContactBook
