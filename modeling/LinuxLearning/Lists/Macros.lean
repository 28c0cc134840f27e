/-
  LinuxLearning.Lists.Macros

  The list macros: `LL_ADD` and `LL_REMOVE` of `arp.h` and
  `tcp_from_king.c`, `List_insert` and `List_remove` of `contact.c`,
  `List_insert` and `List_delete` of `thread_pool.c`.

  Each is given as the stores it makes, in the order of the source.  The
  insertions differ in the order of two stores only.  The removals differ in
  how they tell that `item` is the first node, in the order of the stores to
  its neighbours, and in whether the links of `item` are cleared.  On a heap
  that represents a list they all come to the operations of
  `Lib.LinkedList`.
-/

import LinuxLearning.Lib.LinkedList

namespace LinuxLearning.Lists

open Lib

universe u

/-- The links of all nodes, and the head pointer that a macro is given as
    its `list`. -/
structure Heap (α : Type u) where
  links : Links α
  list : Option α

namespace Heap

variable {α : Type u}

/-- `list` leads to the nodes `xs`, each once, through consistent links to
    the null pointer. -/
def Represents (h : Heap α) (xs : List α) : Prop := h.links.IsList h.list xs

/-- No node of a list is its own neighbour, and just the first one has no
    node before it. -/
theorem Represents.neighbours {h : Heap α} {item : α} {pre post : List α}
    (hl : h.Represents (pre ++ item :: post)) :
    (h.links item).next ≠ some item ∧ (h.links item).prev ≠ some item ∧
      (h.list = some item ↔ (h.links item).prev = none) := by
  obtain ⟨-, hafter, hapart⟩ := List.nodup_append.mp hl.nodup
  have hpre : item ∉ pre := fun hmem => hapart item hmem item (List.mem_cons_self ..) rfl
  have hpost : item ∉ post := (List.nodup_cons.mp hafter).1
  rw [hl.chain.next, hl.prev, hl.head]
  refine ⟨fun heq => hpost (List.mem_of_head? heq), fun heq => hpre (List.mem_of_getLast? heq), ?_⟩
  cases pre with
  | nil => simp
  | cons y ys =>
      have hy : y ≠ item := fun heq => hpre (heq ▸ List.mem_cons_self ..)
      simp [hy]

variable [DecidableEq α]

/-- `a->next = n` -/
def setNext (h : Heap α) (a : α) (n : Option α) : Heap α :=
  { h with links := h.links.setNext a n }

/-- `a->prev = p` -/
def setPrev (h : Heap α) (a : α) (p : Option α) : Heap α :=
  { h with links := h.links.setPrev a p }

end Heap

variable {α : Type u} [DecidableEq α] {h : Heap α} {item : α} {xs pre post : List α}

/-! ## The macros -/

/-- `LL_ADD(item, list)` of `arp.h` and `tcp_from_king.c` -/
def llAdd (item : α) (h : Heap α) : Heap α :=
  let h := h.setPrev item none
  let h := h.setNext item h.list
  let h :=
    match h.list with
    | none => h
    | some first => h.setPrev first (some item)
  { h with list := some item }

/-- `LL_REMOVE(item, list)` of `arp.h` and `tcp_from_king.c` -/
def llRemove (item : α) (h : Heap α) : Heap α :=
  let h :=
    match (h.links item).prev with
    | none => h
    | some p => h.setNext p (h.links item).next
  let h :=
    match (h.links item).next with
    | none => h
    | some n => h.setPrev n (h.links item).prev
  let h := if h.list = some item then { h with list := (h.links item).next } else h
  -- the right one of two assignments is made first
  (h.setNext item none).setPrev item none

/-- `List_insert(item,list)` of `contact.c` and `thread_pool.c` -/
def listInsert (item : α) (h : Heap α) : Heap α :=
  let h := h.setNext item h.list
  let h := h.setPrev item none
  let h :=
    match h.list with
    | none => h
    | some first => h.setPrev first (some item)
  { h with list := some item }

/-- `List_delete(item,list)` of `thread_pool.c` -/
def listDelete (item : α) (h : Heap α) : Heap α :=
  let h :=
    match (h.links item).next with
    | none => h
    | some n => h.setPrev n (h.links item).prev
  match (h.links item).prev with
  | some p => h.setNext p (h.links item).next
  | none => { h with list := (h.links item).next }

/-- `List_remove(item,list)` of `contact.c` -/
def listRemove (item : α) (h : Heap α) : Heap α :=
  let h :=
    match (h.links item).next with
    | none => h
    | some n => h.setPrev n (h.links item).prev
  let h :=
    match (h.links item).prev with
    | some p => h.setNext p (h.links item).next
    | none => { h with list := (h.links item).next }
  (h.setNext item none).setPrev item none

/-! ## What they come to -/

/-- The order of the first two stores does not matter. -/
theorem llAdd_eq (item : α) (h : Heap α) : llAdd item h = listInsert item h := by
  simp only [llAdd, listInsert, Heap.setNext, Heap.setPrev, Links.setNext_setPrev]

theorem listInsert_eq (item : α) (h : Heap α) :
    listInsert item h =
      ⟨(h.links.pushFront h.list item).1, (h.links.pushFront h.list item).2⟩ := by
  unfold listInsert Links.pushFront
  cases hlist : h.list with
  | none => simp [Heap.setNext, Heap.setPrev, hlist]
  | some first => simp [Heap.setNext, Heap.setPrev, hlist]

theorem listDelete_eq (item : α) (h : Heap α) :
    listDelete item h = ⟨(h.links.unlink h.list item).1, (h.links.unlink h.list item).2⟩ := by
  unfold listDelete Links.unlink
  cases (h.links item).next <;> dsimp only [Heap.setNext, Heap.setPrev] <;> split <;> simp_all

/-- `List_remove` clears the links of the node that `List_delete` leaves. -/
theorem listRemove_eq (item : α) (h : Heap α) :
    listRemove item h = ((listDelete item h).setNext item none).setPrev item none := rfl

/-- On a list, comparing the head finds the first node just as the test of
    `prev` does. -/
theorem llRemove_eq (hl : h.Represents (pre ++ item :: post)) :
    llRemove item h = listRemove item h := by
  obtain ⟨hnext, hprev, hhead⟩ := hl.neighbours
  unfold llRemove listRemove
  -- the head is compared behind the stores to the neighbours, which are not `item`
  cases hn : (h.links item).next with
  | none =>
      cases hp : (h.links item).prev with
      | none => simp [Heap.setNext, Heap.setPrev, hn, hp, hhead]
      | some p =>
          have hne : item ≠ p := fun heq => hprev (hp.trans (congrArg some heq.symm))
          simp [Heap.setNext, Heap.setPrev, hn, hp, hhead, Links.setNext_of_ne hne]
  | some n =>
      have hne : item ≠ n := fun heq => hnext (hn.trans (congrArg some heq.symm))
      cases hp : (h.links item).prev with
      | none => simp [Heap.setNext, Heap.setPrev, hn, hp, hhead, Links.setPrev_of_ne hne]
      | some p =>
          have hne' : item ≠ p := fun heq => hprev (hp.trans (congrArg some heq.symm))
          simp [Heap.setNext, Heap.setPrev, hn, hp, hhead, Links.setPrev_of_ne hne,
            Links.setNext_of_ne hne', Links.setNext_setPrev]

/-! ## Lists -/

/-- `h'` is `h` with `item` put in front of `xs`: no other node gets another
    `next`, and none but the old first one another `prev`. -/
structure Inserted (h h' : Heap α) (item : α) (xs : List α) : Prop where
  represents : h'.Represents (item :: xs)
  next_kept : ∀ y ≠ item, (h'.links y).next = (h.links y).next
  prev_kept : ∀ y ≠ item, xs.head? ≠ some y → (h'.links y).prev = (h.links y).prev
  outside_kept : ∀ y ∉ item :: xs, h'.links y = h.links y

/-- `h'` is `h` with `item` taken out between `pre` and `post`: of the other
    nodes only the one before it gets another `next`, and only the one behind
    it another `prev`. -/
structure Removed (h h' : Heap α) (item : α) (pre post : List α) : Prop where
  represents : h'.Represents (pre ++ post)
  next_kept : ∀ y ≠ item, pre.getLast? ≠ some y → (h'.links y).next = (h.links y).next
  prev_kept : ∀ y ≠ item, post.head? ≠ some y → (h'.links y).prev = (h.links y).prev
  outside_kept : ∀ y ∉ pre ++ item :: post, h'.links y = h.links y

/-- The same head, and the same links of all nodes but `item`. -/
def AgreeOff (item : α) (h h' : Heap α) : Prop :=
  h.list = h'.list ∧ ∀ y ≠ item, h.links y = h'.links y

theorem inserted_listInsert (hl : h.Represents xs) (hitem : item ∉ xs) :
    Inserted h (listInsert item h) item xs := by
  rw [listInsert_eq]
  have hframe := fun y (hy : y ≠ item) => h.links.pushFront_frame h.list hy
  rw [hl.head] at hframe ⊢
  refine ⟨hl.head ▸ hl.pushFront hitem, fun y hy => (hframe y hy).1,
    fun y hy => (hframe y hy).2, fun y hy => ?_⟩
  obtain ⟨hy, hout⟩ := not_or.mp (List.mem_cons.not.mp hy)
  exact Link.ext (hframe y hy).1 ((hframe y hy).2 fun heq => hout (List.mem_of_head? heq))

theorem removed_listDelete (hl : h.Represents (pre ++ item :: post)) :
    Removed h (listDelete item h) item pre post := by
  rw [listDelete_eq]
  have hframe := fun y => h.links.unlink_frame h.list item y
  rw [hl.prev, hl.chain.next] at hframe
  refine ⟨hl.unlink, fun y _ => (hframe y).1, fun y _ => (hframe y).2, fun y hy => ?_⟩
  simp only [List.mem_append, List.mem_cons, not_or] at hy
  exact Link.ext ((hframe y).1 fun heq => hy.1 (List.mem_of_getLast? heq))
    ((hframe y).2 fun heq => hy.2.2 (List.mem_of_head? heq))

/-- The links of the node that was taken out can be cleared. -/
theorem Removed.clear {h' : Heap α} (hr : Removed h h' item pre post)
    (hitem : item ∉ pre ++ post) :
    Removed h ((h'.setNext item none).setPrev item none) item pre post := by
  have hkept : ∀ y ≠ item, ((h'.setNext item none).setPrev item none).links y = h'.links y :=
    fun y hy => (Links.setPrev_of_ne hy).trans (Links.setNext_of_ne hy)
  -- nothing is said about the links of `item`
  refine ⟨hr.represents.congr fun y hy => hkept y (ne_of_mem_of_not_mem hy hitem),
    fun y hy => ?_, fun y hy => ?_, fun y hy => ?_⟩
  · rw [hkept y hy]
    exact hr.next_kept y hy
  · rw [hkept y hy]
    exact hr.prev_kept y hy
  · rw [hkept y (by rintro rfl; simp at hy)]
    exact hr.outside_kept y hy

theorem removed_listRemove (hl : h.Represents (pre ++ item :: post)) :
    Removed h (listRemove item h) item pre post := by
  rw [listRemove_eq]
  -- the node is on the list once, so the two stores behind do not touch what is left
  have hitem : item ∉ pre ++ post := (List.nodup_cons.mp (List.nodup_middle.mp hl.nodup)).1
  exact (removed_listDelete hl).clear hitem

/-- The insertions put a node that is not on the list in front of it, the
    removals take any node out, and nothing else changes.  The removals agree
    on the head and on the links of all other nodes. -/
theorem list_macros (hl : h.Represents xs) :
    (∀ item ∉ xs, Inserted h (llAdd item h) item xs ∧ Inserted h (listInsert item h) item xs) ∧
      ∀ pre item post, xs = pre ++ item :: post →
        Removed h (llRemove item h) item pre post ∧ Removed h (listRemove item h) item pre post ∧
          Removed h (listDelete item h) item pre post ∧
          AgreeOff item (llRemove item h) (listRemove item h) ∧
          AgreeOff item (llRemove item h) (listDelete item h) := by
  constructor
  · intro item hitem
    rw [llAdd_eq]
    exact ⟨inserted_listInsert hl hitem, inserted_listInsert hl hitem⟩
  · rintro pre item post rfl
    rw [llRemove_eq hl]
    refine ⟨removed_listRemove hl, removed_listRemove hl, removed_listDelete hl,
      ⟨rfl, fun _ _ => rfl⟩, rfl, fun y hy => ?_⟩
    -- `List_remove` is `List_delete` and two stores to `item`
    exact (Links.setPrev_of_ne hy).trans (Links.setNext_of_ne hy)

/-- Nodes 1, 2 and 3, linked in this order. -/
def three : Heap Nat := ⟨(Links.build [1, 2, 3]).1, (Links.build [1, 2, 3]).2⟩

theorem list_macros_three :
    (llAdd 0 three).Represents [0, 1, 2, 3] ∧ (llRemove 2 three).Represents [1, 3] := by
  have hl : three.Represents [1, 2, 3] := Links.isList_build (by decide)
  exact ⟨((list_macros hl).1 0 (by decide)).1.represents,
    ((list_macros hl).2 [1] 2 [3] rfl).1.represents⟩

end LinuxLearning.Lists
