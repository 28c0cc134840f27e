/-
  LinuxLearning.Lib.Table

  Heap objects on a linked list.  A `Table` is the sequence of the list's
  nodes, head first, each with the address it lives at.  Addresses are never
  reused: every node lies below the counter `next`, from which an insertion
  takes its address, and no address occurs twice.  Both facts are fields, so
  the lemmas below need no side condition about the list being well formed.
-/

import Mathlib.Data.List.Basic
import Mathlib.Data.List.Nodup

namespace LinuxLearning.Lib

universe u

/-- The address of a heap object. -/
abbrev Addr := Nat

/-- A linked list of heap objects: address and contents, head first. -/
structure Table (α : Type u) where
  nodes : List (Addr × α)
  next : Addr
  nodup : (nodes.map Prod.fst).Nodup
  lt_next : ∀ p ∈ nodes, p.1 < next

namespace Table

variable {α : Type u} {t : Table α} {a b : Addr} {x y : α} {p : α → Bool}

/-- The empty list. -/
def empty : Table α where
  nodes := []
  next := 0
  nodup := List.nodup_nil
  lt_next := by simp

/-- The object at address `a`, if it is on the list. -/
def get? (t : Table α) (a : Addr) : Option α :=
  (t.nodes.find? fun n => n.1 == a).map Prod.snd

/-- The first object, from the head, that satisfies `p`. -/
def find? (t : Table α) (p : α → Bool) : Option (Addr × α) :=
  t.nodes.find? fun n => p n.2

/-- Link a freshly allocated object in front; its address is `t.next`. -/
def add (t : Table α) (x : α) : Table α where
  nodes := (t.next, x) :: t.nodes
  next := t.next + 1
  nodup := by
    rw [List.map_cons, List.nodup_cons]
    refine ⟨fun hmem => ?_, t.nodup⟩
    obtain ⟨n, hn, hfst⟩ := List.mem_map.mp hmem
    exact absurd (t.lt_next n hn) (hfst ▸ Nat.lt_irrefl _)
  lt_next := by
    intro n hn
    rcases List.mem_cons.mp hn with rfl | hn
    · exact Nat.lt_succ_self _
    · exact Nat.lt_succ_of_lt (t.lt_next n hn)

/-- Update every object in place. -/
def mapNodes (t : Table α) (f : Addr → α → α) : Table α where
  nodes := t.nodes.map fun n => (n.1, f n.1 n.2)
  next := t.next
  nodup := by
    rw [List.map_map]
    exact t.nodup
  lt_next := by
    intro n hn
    obtain ⟨m, hm, rfl⟩ := List.mem_map.mp hn
    exact t.lt_next m hm

/-- Update the object at address `a` in place. -/
def modify (t : Table α) (a : Addr) (f : α → α) : Table α :=
  t.mapNodes fun b x => if b = a then f x else x

/-- Unlink the object at address `a`. -/
def remove (t : Table α) (a : Addr) : Table α where
  nodes := t.nodes.filter fun n => n.1 != a
  next := t.next
  nodup := t.nodup.sublist (List.filter_sublist.map _)
  lt_next := fun n hn => t.lt_next n (List.mem_filter.mp hn).1

/-! ## Looking an object up by its address -/

theorem mem_nodes_iff : (a, x) ∈ t.nodes ↔ t.get? a = some x := by
  obtain ⟨nodes, next, nodup, lt_next⟩ := t
  simp only [get?]
  clear lt_next
  induction nodes with
  | nil => simp
  | cons n rest ih =>
      rw [List.map_cons, List.nodup_cons] at nodup
      rw [List.mem_cons, List.find?_cons, ih nodup.2]
      by_cases hn : n.1 = a
      · subst hn
        have hnone : rest.find? (fun m => m.1 == n.1) = none := by
          rw [List.find?_eq_none]
          intro m hm heq
          exact nodup.1 (List.mem_map.mpr ⟨m, hm, by simpa using heq⟩)
        simp [hnone, Prod.ext_iff, eq_comm]
      · have hne : (a, x) ≠ n := fun h => hn (by rw [← h])
        have hbeq : (n.1 == a) = false := by simpa using hn
        simp [hbeq, hne]

@[simp] theorem get?_empty (a : Addr) : (empty : Table α).get? a = none := rfl

theorem lt_next_of_get? (h : t.get? a = some x) : a < t.next :=
  t.lt_next _ (mem_nodes_iff.mpr h)

@[simp] theorem get?_next (t : Table α) : t.get? t.next = none := by
  cases h : t.get? t.next with
  | none => rfl
  | some x => exact absurd (lt_next_of_get? h) (Nat.lt_irrefl _)

theorem get?_add (t : Table α) (x : α) (b : Addr) :
    (t.add x).get? b = if b = t.next then some x else t.get? b := by
  by_cases h : b = t.next
  · subst h
    simp [get?, add]
  · have hne : ¬ t.next = b := fun heq => h heq.symm
    simp [get?, add, h, hne]

@[simp] theorem get?_mapNodes (t : Table α) (f : Addr → α → α) (b : Addr) :
    (t.mapNodes f).get? b = (t.get? b).map (f b) := by
  simp only [get?, mapNodes, List.find?_map, Option.map_map]
  cases h : t.nodes.find? ((fun n => n.1 == b) ∘ fun n => (n.1, f n.1 n.2)) with
  | none =>
      have h' : t.nodes.find? (fun n => n.1 == b) = none := h
      rw [h']
      rfl
  | some n =>
      have h' : t.nodes.find? (fun n => n.1 == b) = some n := h
      have hb : n.1 = b := by simpa using List.find?_some h'
      rw [h']
      simp [hb]

theorem get?_modify (t : Table α) (a : Addr) (f : α → α) (b : Addr) :
    (t.modify a f).get? b = if b = a then (t.get? b).map f else t.get? b := by
  rw [modify, get?_mapNodes]
  by_cases h : b = a <;> simp [h]

theorem get?_remove (t : Table α) (a b : Addr) :
    (t.remove a).get? b = if b = a then none else t.get? b := by
  simp only [get?, remove, List.find?_filter]
  by_cases h : b = a
  · subst h
    simp
  · rw [if_neg h]
    have hpred : (fun n : Addr × α => decide ((n.1 != a) = true ∧ (n.1 == b) = true)) =
        fun n => n.1 == b := by
      funext n
      by_cases hn : n.1 = b
      · simp [hn, h]
      · simp [hn]
    rw [hpred]

/-! ## The counter -/

@[simp] theorem next_add (t : Table α) (x : α) : (t.add x).next = t.next + 1 := rfl

@[simp] theorem next_modify (t : Table α) (a : Addr) (f : α → α) :
    (t.modify a f).next = t.next := rfl

@[simp] theorem next_mapNodes (t : Table α) (f : Addr → α → α) :
    (t.mapNodes f).next = t.next := rfl

@[simp] theorem next_remove (t : Table α) (a : Addr) : (t.remove a).next = t.next := rfl

/-! ## Searching from the head -/

theorem get?_of_find? (h : t.find? p = some (a, x)) : t.get? a = some x :=
  mem_nodes_iff.mp (List.mem_of_find?_eq_some h)

theorem prop_of_find? (h : t.find? p = some (a, x)) : p x = true := by
  simpa using List.find?_some h

theorem find?_eq_none_iff : t.find? p = none ↔ ∀ a x, t.get? a = some x → p x = false := by
  rw [find?, List.find?_eq_none]
  constructor
  · intro h a x hx
    simpa using h (a, x) (mem_nodes_iff.mpr hx)
  · intro h n hn
    simpa using h n.1 n.2 (mem_nodes_iff.mp hn)

/-- An update that does not change what the search tests changes only the
    contents that are found. -/
theorem find?_mapNodes {f : Addr → α → α}
    (hp : ∀ b y, t.get? b = some y → p (f b y) = p y) :
    (t.mapNodes f).find? p = (t.find? p).map fun n => (n.1, f n.1 n.2) := by
  simp only [find?, mapNodes, List.find?_map]
  have hmem : ∀ n ∈ t.nodes, p (f n.1 n.2) = p n.2 := fun n hn =>
    hp n.1 n.2 (mem_nodes_iff.mp hn)
  congr 1
  generalize t.nodes = nodes at hmem
  induction nodes with
  | nil => rfl
  | cons n rest ih =>
      simp only [List.forall_mem_cons] at hmem
      rw [List.find?_cons, List.find?_cons, ih hmem.2]
      simp only [Function.comp_apply, hmem.1]

theorem find?_modify {f : α → α} (hp : ∀ y, t.get? a = some y → p (f y) = p y) :
    (t.modify a f).find? p =
      (t.find? p).map fun n => (n.1, if n.1 = a then f n.2 else n.2) := by
  rw [modify, find?_mapNodes]
  intro b y hy
  by_cases hb : b = a
  · subst hb
    rw [if_pos rfl]
    exact hp y hy
  · rw [if_neg hb]

/-! ## Searching from one state of the list to the next -/

/-- The addresses of the objects on the list, head first. -/
def addrs (t : Table α) : List Addr := t.nodes.map Prod.fst

@[simp] theorem addrs_add (t : Table α) (x : α) : (t.add x).addrs = t.next :: t.addrs := rfl

@[simp] theorem addrs_mapNodes (t : Table α) (f : Addr → α → α) :
    (t.mapNodes f).addrs = t.addrs := by
  simp [addrs, mapNodes, Function.comp_def]

@[simp] theorem addrs_modify (t : Table α) (a : Addr) (f : α → α) :
    (t.modify a f).addrs = t.addrs := addrs_mapNodes ..

@[simp] theorem addrs_remove (t : Table α) (a : Addr) :
    (t.remove a).addrs = t.addrs.filter (· != a) := by
  simp [addrs, remove, List.filter_map, Function.comp_def]

theorem mem_addrs_of_get? (h : t.get? a = some x) : a ∈ t.addrs :=
  List.mem_map_of_mem (mem_nodes_iff.mpr h)

theorem lt_next_of_mem_addrs (h : a ∈ t.addrs) : a < t.next := by
  obtain ⟨n, hn, rfl⟩ := List.mem_map.mp h
  exact t.lt_next n hn

/-- `t'` has the nodes of `t` at their places, but for one that was linked in
    front or one that was unlinked; only the former moves the counter. -/
def Evolved (t t' : Table α) : Prop :=
  (t'.addrs = t.addrs ∧ t'.next = t.next) ∨
  (t'.addrs = t.next :: t.addrs ∧ t'.next = t.next + 1) ∨
  ∃ b, t'.addrs = t.addrs.filter (· != b) ∧ t'.next = t.next

namespace Evolved

variable {t' t'' : Table α}

theorem of_eq (h : t' = t) : Evolved t t' := by
  subst h
  exact .inl ⟨rfl, rfl⟩

theorem modify (t : Table α) (a : Addr) (f : α → α) : Evolved t (t.modify a f) :=
  .inl ⟨addrs_modify .., rfl⟩

theorem mapNodes (t : Table α) (f : Addr → α → α) : Evolved t (t.mapNodes f) :=
  .inl ⟨addrs_mapNodes .., rfl⟩

theorem add (t : Table α) (x : α) : Evolved t (t.add x) := .inr (.inl ⟨rfl, rfl⟩)

theorem remove (t : Table α) (a : Addr) : Evolved t (t.remove a) :=
  .inr (.inr ⟨a, addrs_remove .., rfl⟩)

/-- An object that is written once more has not moved. -/
theorem then_modify (h : Evolved t t') (a : Addr) (f : α → α) : Evolved t (t'.modify a f) := by
  unfold Evolved
  rw [addrs_modify, next_modify]
  exact h

theorem next_le (h : Evolved t t') : t.next ≤ t'.next := by
  rcases h with ⟨-, hnext⟩ | ⟨-, hnext⟩ | ⟨-, -, hnext⟩
  · exact Nat.le_of_eq hnext.symm
  · exact hnext ▸ Nat.le_succ _
  · exact Nat.le_of_eq hnext.symm

theorem length_addrs_le (h : Evolved t t') : t'.addrs.length ≤ t.addrs.length + 1 := by
  rcases h with ⟨haddrs, -⟩ | ⟨haddrs, -⟩ | ⟨b, haddrs, -⟩
  · exact haddrs ▸ Nat.le_succ _
  · rw [haddrs]
    exact Nat.le_of_eq (List.length_cons ..)
  · rw [haddrs]
    exact Nat.le_succ_of_le (List.length_filter_le ..)

/-- Later objects stay in front of earlier ones. -/
theorem sorted (h : Evolved t t') (hsorted : t.addrs.Pairwise (· > ·)) :
    t'.addrs.Pairwise (· > ·) := by
  rcases h with ⟨haddrs, -⟩ | ⟨haddrs, -⟩ | ⟨b, haddrs, -⟩
  · rw [haddrs]
    exact hsorted
  · rw [haddrs, List.pairwise_cons]
    exact ⟨fun a ha => lt_next_of_mem_addrs ha, hsorted⟩
  · rw [haddrs]
    exact hsorted.filter _

end Evolved

/-- `t'` has the addresses of `t` in the same order, but for one that was
    linked in front or one that was unlinked. -/
def Relinked (t t' : Table α) : Prop :=
  t'.addrs = t.addrs ∨ t'.addrs = t.next :: t.addrs ∨ ∃ b, t'.addrs = t.addrs.filter (· != b)

theorem Evolved.relinked {t' : Table α} (h : Evolved t t') : Relinked t t' :=
  h.imp And.left fun h => h.imp And.left fun ⟨b, hb, _⟩ => ⟨b, hb⟩

/-- On a list whose later objects are in front, the search finds the latest
    hit. -/
theorem le_of_find? (hsorted : t.addrs.Pairwise (· > ·)) (hfind : t.find? p = some (a, x))
    (hb : t.get? b = some y) (hp : p y = true) : b ≤ a := by
  have hmem := mem_nodes_iff.mpr hb
  unfold addrs at hsorted
  unfold find? at hfind
  generalize t.nodes = nodes at hsorted hfind hmem
  induction nodes with
  | nil => cases hmem
  | cons n rest ih =>
      rw [List.map_cons, List.pairwise_cons] at hsorted
      rw [List.find?_cons] at hfind
      by_cases hn : p n.2 = true
      · -- the head is the hit, and nothing behind it is later
        rw [hn, Option.some.injEq] at hfind
        subst hfind
        rcases List.mem_cons.mp hmem with heq | hrest
        · exact Nat.le_of_eq (congrArg Prod.fst heq)
        · exact Nat.le_of_lt (hsorted.1 b (List.mem_map_of_mem hrest))
      · rw [Bool.not_eq_true] at hn
        rw [hn] at hfind
        rcases List.mem_cons.mp hmem with heq | hrest
        · rw [← heq, hp] at hn
          cases hn
        · exact ih hsorted.2 hfind hrest

/-- What the search finds at an address, if it gets there. -/
def hit (t : Table α) (p : α → Bool) (b : Addr) : Option (Addr × α) :=
  ((t.get? b).filter p).map (b, ·)

theorem hit_eq_some_iff {n : Addr × α} :
    t.hit p b = some n ↔ n.1 = b ∧ t.get? b = some n.2 ∧ p n.2 = true := by
  obtain ⟨c, y⟩ := n
  simp only [hit, Option.map_eq_some_iff, Option.filter_eq_some_iff, Prod.mk.injEq]
  constructor
  · rintro ⟨z, ⟨hget, hp⟩, rfl, rfl⟩
    exact ⟨rfl, hget, hp⟩
  · rintro ⟨rfl, hget, hp⟩
    exact ⟨y, ⟨hget, hp⟩, rfl, rfl⟩

theorem hit_of_get? (h : t.get? b = some y) (hp : p y = true) : t.hit p b = some (b, y) :=
  hit_eq_some_iff.mpr ⟨rfl, h, hp⟩

theorem find?_eq_findSome? (t : Table α) (p : α → Bool) :
    t.find? p = t.addrs.findSome? (t.hit p) := by
  have hhit : ∀ n ∈ t.nodes, t.hit p n.1 = if p n.2 then some n else none := by
    intro n hn
    have hget := mem_nodes_iff.mp hn
    by_cases hp : p n.2 = true
    · rw [if_pos hp]
      exact hit_of_get? hget hp
    · simp [hit, hget, hp]
  rw [find?, addrs]
  generalize t.nodes = nodes at hhit
  induction nodes with
  | nil => rfl
  | cons n rest ih =>
      rw [List.forall_mem_cons] at hhit
      rw [List.find?_cons, List.map_cons, List.findSome?_cons, hhit.1, ih hhit.2]
      by_cases hp : p n.2 = true <;> simp [hp]

theorem findSome?_filter_ne {β : Type u} {f : Addr → Option β} (hb : f b = none) (l : List Addr) :
    (l.filter (· != b)).findSome? f = l.findSome? f := by
  induction l with
  | nil => rfl
  | cons c rest ih =>
      by_cases hc : c = b
      · subst hc
        simp [hb, ih]
      · rw [List.filter_cons_of_pos (by simpa using hc), List.findSome?_cons,
          List.findSome?_cons, ih]

/-- A search that finds `a` finds it again, if nothing else has become a hit
    since. -/
theorem find?_of_relinked {t' : Table α} {x' : α} (hlinks : Relinked t t')
    (hfind : t.find? p = some (a, x)) (ha : t'.get? a = some x') (hx' : p x' = true)
    (hothers : ∀ b, b ≠ a → ∀ y, t'.get? b = some y → p y = true →
      ∃ z, t.get? b = some z ∧ p z = true) : t'.find? p = some (a, x') := by
  have hget := get?_of_find? hfind
  have hhit : ∀ b, b ≠ a → t.hit p b = none → t'.hit p b = none := by
    intro b hb hnone
    cases h : t'.hit p b with
    | none => rfl
    | some n =>
        obtain ⟨-, hgetb, hpb⟩ := hit_eq_some_iff.mp h
        obtain ⟨z, hz, hpz⟩ := hothers b hb n.2 hgetb hpb
        cases hnone.symm.trans (hit_of_get? hz hpz)
  -- what was linked or unlinked is not hit
  have hsame : t'.addrs.findSome? (t'.hit p) = t.addrs.findSome? (t'.hit p) := by
    rcases hlinks with heq | heq | ⟨b, heq⟩
    · rw [heq]
    · have hnext : t.next ≠ a := fun h => by
        rw [← h, get?_next] at hget
        cases hget
      rw [heq, List.findSome?_cons, hhit t.next hnext (by simp [hit])]
    · have hb : t'.get? b = none := by
        cases h : t'.get? b with
        | none => rfl
        | some y =>
            have hmem := mem_addrs_of_get? h
            rw [heq, List.mem_filter] at hmem
            simp at hmem
      rw [heq]
      exact findSome?_filter_ne (by simp [hit, hb]) _
  rw [find?_eq_findSome?] at hfind ⊢
  rw [hsame]
  generalize t.addrs = l at hfind
  induction l with
  | nil => cases hfind
  | cons c rest ih =>
      rw [List.findSome?_cons] at hfind ⊢
      by_cases hc : c = a
      · subst hc
        rw [hit_of_get? ha hx']
      · cases h : t.hit p c with
        | none =>
            rw [h] at hfind
            rw [hhit c hc h]
            exact ih hfind
        | some n =>
            obtain ⟨hn, -⟩ := hit_eq_some_iff.mp h
            rw [h, Option.some.injEq] at hfind
            exact absurd (hn.symm.trans (by rw [hfind])) hc

end Table

end LinuxLearning.Lib
