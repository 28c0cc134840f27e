/-
  LinuxLearning.Lib.LinkedList

  Intrusive doubly linked lists.  The nodes carry their own link fields; a
  head pointer and the links of all nodes represent a sequence of nodes when
  the walk along `next` visits just that sequence and every `prev` points
  back.  Insertion in front and unlinking are the pointer updates themselves;
  their lemmas say which sequence the result represents.
-/

import Mathlib.Data.List.Nodup
import Mathlib.Data.List.Perm.Subperm
import Mathlib.Logic.Function.Basic

namespace LinuxLearning.Lib

universe u

/-- The link fields of a node; `none` is the null pointer. -/
structure Link (α : Type u) where
  next : Option α
  prev : Option α
deriving DecidableEq, Repr

attribute [ext] Link

/-- The link fields of all nodes. -/
abbrev Links (α : Type u) := α → Link α

namespace Links

variable {α : Type u}

/-- The walk along `next` from `cur` visits `xs`; the first node points back
    to `prev`, and each other one to the node before it. -/
def Chain (h : Links α) : Option α → Option α → List α → Prop
  | _, cur, [] => cur = none
  | prev, cur, x :: xs => cur = some x ∧ (h x).prev = prev ∧ Chain h (some x) (h x).next xs

/-- `head` and the links represent the list `xs` of distinct nodes. -/
structure IsList (h : Links α) (head : Option α) (xs : List α) : Prop where
  nodup : xs.Nodup
  chain : Chain h none head xs

/-- A chain only depends on the links of its nodes. -/
theorem Chain.congr {h h' : Links α} {prev cur : Option α} {xs : List α}
    (hc : Chain h prev cur xs) (hsame : ∀ x ∈ xs, h' x = h x) : Chain h' prev cur xs := by
  induction xs generalizing prev cur with
  | nil => exact hc
  | cons x xs ih =>
      obtain ⟨hcur, hprev, hrest⟩ := hc
      rw [List.forall_mem_cons] at hsame
      refine ⟨hcur, by rw [hsame.1]; exact hprev, ?_⟩
      rw [hsame.1]
      exact ih hrest hsame.2

/-- The links of nodes off the list do not matter. -/
theorem IsList.congr {h h' : Links α} {head : Option α} {xs : List α} (hl : IsList h head xs)
    (hsame : ∀ x ∈ xs, h' x = h x) : IsList h' head xs :=
  ⟨hl.nodup, hl.chain.congr hsame⟩

/-- The head pointer points to the first node. -/
theorem IsList.head {h : Links α} {head : Option α} {xs : List α} (hl : IsList h head xs) :
    head = xs.head? := by
  cases xs with
  | nil => exact hl.chain
  | cons x xs => exact hl.chain.1

/-- A null head is the empty list. -/
theorem IsList.eq_nil {h : Links α} {xs : List α} (hl : IsList h none xs) : xs = [] :=
  List.head?_eq_none_iff.mp hl.head.symm

/-- What the head points to is the first node. -/
theorem IsList.eq_cons {h : Links α} {x : α} {xs : List α} (hl : IsList h (some x) xs) :
    ∃ rest, xs = x :: rest := by
  obtain ⟨rest, hrest⟩ := List.head?_eq_some_iff.mp hl.head.symm
  exact ⟨rest, hrest⟩

/-- The `next` of a node on the list is the node after it. -/
theorem Chain.next {h : Links α} {prev cur : Option α} {pre post : List α} {x : α}
    (hc : Chain h prev cur (pre ++ x :: post)) : (h x).next = post.head? := by
  induction pre generalizing prev cur with
  | nil =>
      have hrest := hc.2.2
      cases post with
      | nil => exact hrest
      | cons y post => exact hrest.1
  | cons y pre ih => exact ih hc.2.2

/-- The `prev` of a node on the list is the node before it. -/
theorem Chain.prev {h : Links α} {prev cur : Option α} {pre post : List α} {p x : α}
    (hc : Chain h prev cur (pre ++ p :: x :: post)) : (h x).prev = some p := by
  induction pre generalizing prev cur with
  | nil => exact hc.2.2.2.1
  | cons y pre ih => exact ih hc.2.2

/-- The `prev` of a node on the list is the last one before it. -/
theorem IsList.prev {h : Links α} {head : Option α} {pre post : List α} {x : α}
    (hl : IsList h head (pre ++ x :: post)) : (h x).prev = pre.getLast? := by
  rcases List.eq_nil_or_concat pre with rfl | ⟨ys, p, rfl⟩
  · exact hl.chain.2.1
  · have hc : Chain h none head (ys ++ p :: x :: post) := by simpa using hl.chain
    rw [hc.prev, List.concat_eq_append, List.getLast?_concat]

/-- What follows a node on the list. -/
theorem Chain.drop {h : Links α} {prev cur : Option α} {pre post : List α} {x : α}
    (hc : Chain h prev cur (pre ++ x :: post)) : Chain h (some x) (h x).next post := by
  induction pre generalizing prev cur with
  | nil => exact hc.2.2
  | cons y pre ih => exact ih hc.2.2

/-- Nodes that are numbers below `n` are at most `n`. -/
theorem IsList.length_le {h : Links Nat} {head : Option Nat} {xs : List Nat} {n : Nat}
    (hl : IsList h head xs) (hlt : ∀ x ∈ xs, x < n) : xs.length ≤ n := by
  have hsub : xs ⊆ List.range n := fun x hx => List.mem_range.mpr (hlt x hx)
  have hle := (List.subperm_of_subset hl.nodup hsub).length_le
  rwa [List.length_range] at hle

/-- The walk visits one sequence only. -/
theorem Chain.unique {h : Links α} {prev prev' cur : Option α} {xs ys : List α}
    (hx : Chain h prev cur xs) (hy : Chain h prev' cur ys) : xs = ys := by
  induction xs generalizing prev prev' cur ys with
  | nil =>
      obtain rfl : cur = none := hx
      cases ys with
      | nil => rfl
      | cons y ys => exact absurd hy.1 (by simp)
  | cons x xs ih =>
      obtain ⟨rfl, -, hrest⟩ := hx
      cases ys with
      | nil => exact absurd hy (by simp [Chain])
      | cons y ys =>
          obtain ⟨heq, -, hrest'⟩ := hy
          obtain rfl : x = y := Option.some.inj heq
          exact congrArg _ (ih hrest hrest')

theorem IsList.unique {h : Links α} {head : Option α} {xs ys : List α} (hx : IsList h head xs)
    (hy : IsList h head ys) : xs = ys := hx.chain.unique hy.chain

theorem isList_nil (h : Links α) : IsList h none [] := ⟨List.nodup_nil, rfl⟩

/-! ## Pointer updates -/

variable [DecidableEq α]

/-- `a->next = n` -/
def setNext (h : Links α) (a : α) (n : Option α) : Links α :=
  Function.update h a { h a with next := n }

/-- `a->prev = p` -/
def setPrev (h : Links α) (a : α) (p : Option α) : Links α :=
  Function.update h a { h a with prev := p }

theorem setNext_of_ne {h : Links α} {a b : α} {n : Option α} (hb : b ≠ a) :
    h.setNext a n b = h b := Function.update_of_ne hb ..

theorem setPrev_of_ne {h : Links α} {a b : α} {p : Option α} (hb : b ≠ a) :
    h.setPrev a p b = h b := Function.update_of_ne hb ..

@[simp] theorem setNext_self (h : Links α) (a : α) (n : Option α) :
    h.setNext a n a = { h a with next := n } := Function.update_self ..

@[simp] theorem setPrev_self (h : Links α) (a : α) (p : Option α) :
    h.setPrev a p a = { h a with prev := p } := Function.update_self ..

@[simp] theorem next_setPrev (h : Links α) (a b : α) (p : Option α) :
    (h.setPrev a p b).next = (h b).next := by
  rcases eq_or_ne b a with rfl | hne
  · rw [setPrev_self]
  · rw [setPrev_of_ne hne]

@[simp] theorem prev_setNext (h : Links α) (a b : α) (n : Option α) :
    (h.setNext a n b).prev = (h b).prev := by
  rcases eq_or_ne b a with rfl | hne
  · rw [setNext_self]
  · rw [setNext_of_ne hne]

/-- Stores to the two fields can change places. -/
theorem setNext_setPrev (h : Links α) (a b : α) (n p : Option α) :
    (h.setPrev b p).setNext a n = (h.setNext a n).setPrev b p := by
  rcases eq_or_ne a b with rfl | hne
  · simp [setNext, setPrev]
  · simp only [setNext, setPrev, Function.update_of_ne hne, Function.update_of_ne hne.symm]
    exact Function.update_comm hne.symm ..

/-- A chain whose first node is made to point back elsewhere. -/
theorem Chain.setPrev {h : Links α} {q : Option α} {x : α} {xs : List α} (p : Option α)
    (hc : Chain h q (some x) (x :: xs)) (hx : x ∉ xs) :
    Chain (h.setPrev x p) p (some x) (x :: xs) := by
  obtain ⟨-, -, hrest⟩ := hc
  refine ⟨rfl, by simp, ?_⟩
  rw [setPrev_self]
  exact hrest.congr fun y hy => setPrev_of_ne (ne_of_mem_of_not_mem hy hx)

/-! ## Insertion in front -/

/-- Insert `item` in front of the list at `head`: the links and the new
    head. -/
def pushFront (h : Links α) (head : Option α) (item : α) : Links α × Option α :=
  let h := (h.setNext item head).setPrev item none
  match head with
  | none => (h, some item)
  | some first => (h.setPrev first (some item), some item)

@[simp] theorem pushFront_head (h : Links α) (head : Option α) (item : α) :
    (h.pushFront head item).2 = some item := by
  cases head <;> rfl

/-- No node but the new one gets another `next`, and none but it and the old
    first node another `prev`. -/
theorem pushFront_frame (h : Links α) (head : Option α) {item y : α} (hy : y ≠ item) :
    ((h.pushFront head item).1 y).next = (h y).next ∧
      (head ≠ some y → ((h.pushFront head item).1 y).prev = (h y).prev) := by
  have hkept : (h.setNext item head).setPrev item none y = h y :=
    (setPrev_of_ne hy).trans (setNext_of_ne hy)
  cases head with
  | none => exact ⟨congrArg Link.next hkept, fun _ => congrArg Link.prev hkept⟩
  | some first =>
      refine ⟨(next_setPrev _ first y _).trans (congrArg Link.next hkept), fun hfirst => ?_⟩
      have hne : y ≠ first := fun heq => hfirst (congrArg some heq.symm)
      exact congrArg Link.prev ((setPrev_of_ne hne).trans hkept)

/-- A node that is not on the list is put in front of it. -/
theorem IsList.pushFront {h : Links α} {head : Option α} {xs : List α} {item : α}
    (hl : IsList h head xs) (hitem : item ∉ xs) :
    IsList (h.pushFront head item).1 (h.pushFront head item).2 (item :: xs) := by
  refine ⟨List.nodup_cons.mpr ⟨hitem, hl.nodup⟩, ?_⟩
  cases xs with
  | nil =>
      obtain rfl : head = none := hl.chain
      exact ⟨rfl, by simp [Links.pushFront], by simp [Links.pushFront, Chain]⟩
  | cons first rest =>
      obtain rfl : head = some first := hl.chain.1
      rw [List.mem_cons, not_or] at hitem
      have hfirst : first ∉ rest := (List.nodup_cons.mp hl.nodup).1
      refine ⟨rfl, ?_, ?_⟩
      · show (setPrev _ first (some item) item).prev = none
        rw [setPrev_of_ne hitem.1, setPrev_self]
      · show Chain (setPrev _ first (some item)) _ (setPrev _ first (some item) item).next _
        rw [setPrev_of_ne hitem.1, setPrev_self, setNext_self]
        refine Chain.setPrev (q := none) _ (hl.chain.congr fun x hx => ?_) hfirst
        have hne : x ≠ item := by
          rintro rfl
          exact absurd hx (by simp [hitem])
        rw [setPrev_of_ne hne, setNext_of_ne hne]

/-- The links after the nodes of `xs` were put in front one by one, the last
    one first. -/
def build (xs : List α) : Links α × Option α :=
  xs.foldr (fun x r => r.1.pushFront r.2 x) (fun _ => { next := none, prev := none }, none)

theorem isList_build {xs : List α} (h : xs.Nodup) :
    IsList (build xs).1 (build xs).2 xs := by
  induction xs with
  | nil => exact isList_nil _
  | cons x xs ih =>
      obtain ⟨hx, hxs⟩ := List.nodup_cons.mp h
      exact (ih hxs).pushFront hx

/-! ## Unlinking -/

/-- Unlink `item` from the list at `head`: the links and the head
    afterwards.  The links of `item` itself stay. -/
def unlink (h : Links α) (head : Option α) (item : α) : Links α × Option α :=
  let h :=
    match (h item).next with
    | none => h
    | some n => h.setPrev n (h item).prev
  match (h item).prev with
  | none => (h, (h item).next)
  | some p => (h.setNext p (h item).next, head)

/-- No node but the one in front of `item` gets another `next`, and none but
    the one behind it another `prev`. -/
theorem unlink_frame (h : Links α) (head : Option α) (item y : α) :
    ((h item).prev ≠ some y → ((h.unlink head item).1 y).next = (h y).next) ∧
      ((h item).next ≠ some y → ((h.unlink head item).1 y).prev = (h y).prev) := by
  cases hn : (h item).next with
  | none =>
      cases hp : (h item).prev with
      | none => simp [unlink, hn, hp]
      | some p =>
          simp only [unlink, hn, hp, prev_setNext, implies_true, and_true]
          intro hprev
          rw [setNext_of_ne fun heq => hprev (congrArg some heq.symm)]
  | some n =>
      -- `item->prev` is read behind the store, which may be one to `item`
      have hread : (h.setPrev n (h item).prev item).prev = (h item).prev := by
        rcases eq_or_ne item n with rfl | hne
        · rw [setPrev_self]
        · rw [setPrev_of_ne hne]
      cases hp : (h item).prev with
      | none =>
          rw [hp] at hread
          simp only [unlink, hn, hp, hread, next_setPrev, implies_true, true_and]
          intro hnext
          rw [setPrev_of_ne fun heq => hnext (congrArg some heq.symm)]
      | some p =>
          rw [hp] at hread
          simp only [unlink, hn, hp, hread, prev_setNext]
          refine ⟨fun hprev => ?_, fun hnext => ?_⟩
          · rw [setNext_of_ne fun heq => hprev (congrArg some heq.symm), next_setPrev]
          · rw [setPrev_of_ne fun heq => hnext (congrArg some heq.symm)]

/-- The first node is taken off. -/
theorem IsList.unlink_head {h : Links α} {head : Option α} {x : α} {xs : List α}
    (hl : IsList h head (x :: xs)) :
    IsList (h.unlink head x).1 (h.unlink head x).2 xs := by
  obtain ⟨-, hprev, hrest⟩ := hl.chain
  have hnodup := List.nodup_cons.mp hl.nodup
  refine ⟨hnodup.2, ?_⟩
  cases xs with
  | nil =>
      have hnext : (h x).next = none := hrest
      simp [Links.unlink, hnext, hprev, Chain]
  | cons y ys =>
      have hnext : (h x).next = some y := hrest.1
      have hne : x ≠ y := fun heq => hnodup.1 (heq ▸ List.mem_cons_self ..)
      have hy : y ∉ ys := (List.nodup_cons.mp hnodup.2).1
      simp only [Links.unlink, hnext, hprev, setPrev_of_ne hne]
      rw [hnext] at hrest
      exact hrest.setPrev none hy

/-- The node `p` is made to lead past the one behind it, to `next`. -/
theorem Chain.bypass {h h' : Links α} {prev cur next : Option α} {pre post : List α} {p x : α}
    (hc : Chain h prev cur (pre ++ p :: x :: post)) (hnodup : (pre ++ p :: x :: post).Nodup)
    (hsame : ∀ y ∈ pre ++ [p], h' y = h y) (hpost : Chain h' (some p) next post) :
    Chain (h'.setNext p next) prev cur (pre ++ p :: post) := by
  induction pre generalizing prev cur with
  | nil =>
      obtain ⟨hcur, hprev, -⟩ := hc
      have hp : p ∉ post := fun hmem =>
        (List.nodup_cons.mp hnodup).1 (List.mem_cons_of_mem _ hmem)
      refine ⟨hcur, ?_, ?_⟩
      · rw [setNext_self, hsame p (List.mem_singleton_self p)]
        exact hprev
      · rw [setNext_self]
        exact hpost.congr fun y hy => setNext_of_ne (ne_of_mem_of_not_mem hy hp)
  | cons y pre ih =>
      obtain ⟨hcur, hprev, hrest⟩ := hc
      obtain ⟨hy, hnodup⟩ := List.nodup_cons.mp hnodup
      rw [List.cons_append, List.forall_mem_cons] at hsame
      have hne : y ≠ p := by
        rintro rfl
        exact hy (List.mem_append_right _ (List.mem_cons_self ..))
      have hkept : h'.setNext p next y = h y := (setNext_of_ne hne).trans hsame.1
      exact ⟨hcur, by rw [hkept]; exact hprev, by rw [hkept]; exact ih hrest hnodup hsame.2⟩

/-- Any node is taken off. -/
theorem IsList.unlink {h : Links α} {head : Option α} {pre post : List α} {x : α}
    (hl : IsList h head (pre ++ x :: post)) :
    IsList (h.unlink head x).1 (h.unlink head x).2 (pre ++ post) := by
  rcases List.eq_nil_or_concat pre with rfl | ⟨ys, p, rfl⟩
  · exact hl.unlink_head
  · rw [List.concat_eq_append] at hl ⊢
    have hnext := hl.chain.next
    have hdrop := hl.chain.drop
    obtain ⟨-, hafter, hapart⟩ := List.nodup_append.mp hl.nodup
    have hchain : Chain h none head (ys ++ p :: x :: post) := by simpa using hl.chain
    have hnodup : (ys ++ p :: x :: post).Nodup := by simpa using hl.nodup
    have hprev : (h x).prev = some p := hchain.prev
    rw [List.append_assoc, List.singleton_append]
    refine ⟨hnodup.sublist (.append_left (.cons_cons p (List.sublist_cons_self ..)) _), ?_⟩
    cases post with
    | nil =>
        rw [List.head?_nil] at hnext
        simp only [Links.unlink, hnext, hprev]
        exact hchain.bypass hnodup (fun _ _ => rfl) rfl
    | cons n rest =>
        rw [List.head?_cons] at hnext
        rw [hnext] at hdrop
        obtain ⟨hx, hafter⟩ := List.nodup_cons.mp hafter
        have hxn : x ≠ n := fun heq => hx (heq ▸ List.mem_cons_self ..)
        have hpre : ∀ y ∈ ys ++ [p], y ≠ n := fun y hy => hapart y hy n (by simp)
        simp only [Links.unlink, hnext, setPrev_of_ne hxn, hprev]
        exact hchain.bypass hnodup (fun y hy => setPrev_of_ne (hpre y hy))
          (hdrop.setPrev (some p) (List.nodup_cons.mp hafter).1)

end Links

end LinuxLearning.Lib
