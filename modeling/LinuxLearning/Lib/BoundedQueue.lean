/-
  LinuxLearning.Lib.BoundedQueue

  First-in first-out queues of bounded capacity.  The bound is a field of the
  structure, so an overfull queue cannot be built: `push?` answers `none`
  instead, and `pop?` answers `none` on an empty queue.
-/

import Mathlib.Data.List.Basic

namespace LinuxLearning.Lib

universe u

/-- A queue of at most `capacity` items, oldest first. -/
@[ext]
structure BoundedQueue (α : Type u) where
  capacity : Nat
  items : List α
  fits : items.length ≤ capacity
deriving DecidableEq, Repr

namespace BoundedQueue

variable {α : Type u} {q q' : BoundedQueue α} {x : α}

/-- The empty queue. -/
def empty (capacity : Nat) : BoundedQueue α where
  capacity := capacity
  items := []
  fits := Nat.zero_le _

/-- There is room for one more item. -/
def HasRoom (q : BoundedQueue α) : Prop := q.items.length < q.capacity

instance (q : BoundedQueue α) : Decidable q.HasRoom :=
  inferInstanceAs (Decidable (q.items.length < q.capacity))

/-- Append at the tail; `none` when the queue is full. -/
def push? (q : BoundedQueue α) (x : α) : Option (BoundedQueue α) :=
  if h : q.items.length < q.capacity then
    have hfits : (q.items ++ [x]).length ≤ q.capacity := by
      rw [List.length_append, List.length_singleton]
      exact h
    some { capacity := q.capacity, items := q.items ++ [x], fits := hfits }
  else none

/-- Take the item at the head; `none` when the queue is empty. -/
def pop? (q : BoundedQueue α) : Option (α × BoundedQueue α) :=
  match h : q.items with
  | [] => none
  | x :: rest =>
      have hfits : rest.length ≤ q.capacity := by
        have := q.fits
        rw [h, List.length_cons] at this
        omega
      some (x, { capacity := q.capacity, items := rest, fits := hfits })

@[simp] theorem empty_items (n : Nat) : (empty n : BoundedQueue α).items = [] := rfl

@[simp] theorem empty_capacity (n : Nat) : (empty n : BoundedQueue α).capacity = n := rfl

theorem push?_eq_some_iff :
    q.push? x = some q' ↔
      q.HasRoom ∧ q'.items = q.items ++ [x] ∧ q'.capacity = q.capacity := by
  unfold push? HasRoom
  by_cases h : q.items.length < q.capacity
  · rw [dif_pos h, Option.some.injEq]
    constructor
    · rintro rfl
      exact ⟨h, rfl, rfl⟩
    · rintro ⟨-, hitems, hcap⟩
      exact BoundedQueue.ext hcap.symm hitems.symm
  · simp [h]

theorem push?_eq_none_iff : q.push? x = none ↔ ¬ q.HasRoom := by
  unfold push? HasRoom
  by_cases h : q.items.length < q.capacity <;> simp [h]

theorem pop?_eq_some_iff :
    q.pop? = some (x, q') ↔ q.items = x :: q'.items ∧ q'.capacity = q.capacity := by
  unfold pop?
  split
  · rename_i h
    simp [h]
  · rename_i y rest h
    rw [Option.some.injEq, Prod.mk.injEq]
    constructor
    · rintro ⟨rfl, rfl⟩
      exact ⟨h, rfl⟩
    · rintro ⟨hitems, hcap⟩
      obtain ⟨rfl, hrest⟩ := List.cons.inj (h.symm.trans hitems)
      exact ⟨rfl, BoundedQueue.ext hcap.symm hrest⟩

theorem pop?_eq_none_iff : q.pop? = none ↔ q.items = [] := by
  unfold pop?
  split <;> simp [*]

/-- Popping makes room. -/
theorem hasRoom_of_pop? (h : q.pop? = some (x, q')) : q'.HasRoom := by
  obtain ⟨hitems, hcap⟩ := pop?_eq_some_iff.mp h
  have hfits := q.fits
  rw [hitems, List.length_cons] at hfits
  unfold HasRoom
  omega

/-! ## The items under a function -/

/-- The queue with `f` applied to every item. -/
def map {β : Type u} (f : α → β) (q : BoundedQueue α) : BoundedQueue β where
  capacity := q.capacity
  items := q.items.map f
  fits := by rw [List.length_map]; exact q.fits

theorem map_congr {β : Type u} {f g : α → β} (h : ∀ x ∈ q.items, f x = g x) :
    q.map f = q.map g :=
  BoundedQueue.ext rfl (List.map_congr_left h)

theorem push?_map {β : Type u} (f : α → β) (q : BoundedQueue α) (x : α) :
    (q.map f).push? (f x) = (q.push? x).map (map f) := by
  cases hq : q.push? x with
  | none =>
      rw [Option.map_none, push?_eq_none_iff]
      simpa [HasRoom, map] using push?_eq_none_iff.mp hq
  | some q' =>
      obtain ⟨hroom, hitems, hcap⟩ := push?_eq_some_iff.mp hq
      rw [Option.map_some, push?_eq_some_iff]
      refine ⟨?_, ?_, hcap⟩
      · simpa [HasRoom, map] using hroom
      · simp [map, hitems]

theorem pop?_map {β : Type u} (f : α → β) (q : BoundedQueue α) :
    (q.map f).pop? = q.pop?.map (Prod.map f (map f)) := by
  cases hq : q.pop? with
  | none =>
      rw [Option.map_none, pop?_eq_none_iff]
      simp [map, pop?_eq_none_iff.mp hq]
  | some p =>
      obtain ⟨hitems, hcap⟩ := pop?_eq_some_iff.mp hq
      rw [Option.map_some, Prod.map, pop?_eq_some_iff]
      exact ⟨by simp [map, hitems], hcap⟩

end BoundedQueue

end LinuxLearning.Lib
