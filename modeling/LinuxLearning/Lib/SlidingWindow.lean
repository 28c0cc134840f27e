/-
  LinuxLearning.Lib.SlidingWindow

  The last `N` of a growing sequence in an array of `N` slots: the element
  with number `q` is written to slot `q % N`.  A counter that is set back to
  `N + q % N` instead of growing finds the same slots, and it still tells
  whether the array has been filled.
-/

import Mathlib.Algebra.BigOperators.Group.List.Basic
import Mathlib.Data.List.OfFn
import Mathlib.Data.List.Rotate

namespace LinuxLearning.Lib

/-! ## The counter -/

/-- The counter after `i` elements, for `N` slots. -/
def rebase (N i : Nat) : Nat := if i < N then i else N + i % N

section Rebase

variable {N : Nat} (i : Nat)

/-- It leads to the slot of the element with number `i`. -/
theorem rebase_mod : rebase N i % N = i % N := by
  unfold rebase
  split <;> simp

/-- It tells whether all slots have been written. -/
theorem le_rebase_iff : N ≤ rebase N i ↔ N ≤ i := by
  unfold rebase
  split <;> omega

theorem rebase_lt (hN : 0 < N) : rebase N i < 2 * N := by
  have hmod := Nat.mod_lt i hN
  unfold rebase
  split <;> omega

/-- How it is counted up. -/
theorem rebase_succ (hN : 0 < N) :
    rebase N (i + 1) =
      if N ≤ rebase N i then (rebase N i + 1) % N + N else rebase N i + 1 := by
  by_cases hi : N ≤ i
  · rw [if_pos ((le_rebase_iff i).mpr hi), Nat.add_mod, rebase_mod, ← Nat.add_mod, rebase,
      if_neg (by omega), Nat.add_comm]
  · rw [if_neg ((le_rebase_iff i).not.mpr hi), rebase, rebase, if_pos (Nat.not_le.mp hi)]
    -- the step that fills the last slot
    by_cases hlast : i + 1 < N
    · rw [if_pos hlast]
    · obtain rfl : i + 1 = N := by omega
      rw [if_neg hlast, Nat.mod_self, Nat.add_zero]

end Rebase

/-! ## The slots -/

variable {α : Type*} {N : Nat}

/-- The last elements of a sequence. -/
def lastOf (N : Nat) (xs : List α) : List α := xs.drop (xs.length - N)

theorem lastOf_map {β : Type*} (f : α → β) (N : Nat) (xs : List α) :
    lastOf N (xs.map f) = (lastOf N xs).map f := by
  rw [lastOf, lastOf, List.length_map, List.map_drop]

theorem length_lastOf (N : Nat) (xs : List α) : (lastOf N xs).length = min N xs.length := by
  rw [lastOf, List.length_drop]
  omega

theorem mem_of_mem_lastOf {xs : List α} {x : α} (h : x ∈ lastOf N xs) : x ∈ xs :=
  List.mem_of_mem_drop h

/-- The slot of the element with number `q`. -/
def slotOf (hN : 0 < N) (q : Nat) : Fin N := ⟨q % N, Nat.mod_lt q hN⟩

/-- The slots hold the last `N` elements of `xs`, each in the slot of its
    number, and `blank` where nothing was written yet. -/
structure Holds (hN : 0 < N) (slots : Fin N → α) (blank : α) (xs : List α) : Prop where
  kept : ∀ q, ∀ h : q < xs.length, xs.length ≤ q + N → slots (slotOf hN q) = xs[q]
  blank : ∀ i : Fin N, xs.length ≤ i → slots i = blank

namespace Holds

variable {hN : 0 < N} {slots : Fin N → α} {blank : α} {xs : List α}

theorem start (hN : 0 < N) (blank : α) : Holds hN (fun _ => blank) blank [] where
  kept q h := by cases h
  blank _ _ := rfl

/-- Numbers less than `N` apart have slots of their own. -/
theorem slotOf_ne {q r : Nat} (hlt : q < r) (hr : r < q + N) : slotOf hN q ≠ slotOf hN r := by
  intro heq
  have hmod : r % N = q % N := (congrArg Fin.val heq).symm
  have hle := Nat.le_of_dvd (by omega) (Nat.dvd_of_mod_eq_zero (Nat.sub_mod_eq_zero_of_mod_eq hmod))
  omega

/-- The next element takes the place of the oldest one. -/
theorem push (h : Holds hN slots blank xs) (x : α) :
    Holds hN (Function.update slots (slotOf hN xs.length) x) blank (xs ++ [x]) := by
  refine ⟨fun q hq hwindow => ?_, fun i hi => ?_⟩
  · rw [List.length_append, List.length_singleton] at hq hwindow
    rcases Nat.lt_or_eq_of_le (Nat.le_of_lt_succ hq) with hlt | rfl
    · -- an older element that is still among the last `N`
      rw [Function.update_of_ne (slotOf_ne hlt (by omega)), h.kept q hlt (by omega),
        List.getElem_append_left hlt]
    · rw [Function.update_self, List.getElem_concat_length rfl]
  · rw [List.length_append, List.length_singleton] at hi
    -- while there are blanks, the number of an element is its slot
    have hne : i ≠ slotOf hN xs.length := by
      intro heq
      have hval : (i : Nat) = xs.length % N := congrArg Fin.val heq
      rw [Nat.mod_eq_of_lt (by omega)] at hval
      omega
    rw [Function.update_of_ne hne, h.blank i (by omega)]

/-- All slots together: the last elements, each once, and blanks. -/
theorem perm (h : Holds hN slots blank xs) :
    (List.ofFn slots).Perm (lastOf N xs ++ List.replicate (N - xs.length) blank) := by
  rcases Nat.le_total xs.length N with hle | hle
  · -- not filled yet: the slots are in the order of the sequence
    have heq : List.ofFn slots = xs ++ List.replicate (N - xs.length) blank := by
      refine List.ext_getElem (by simp; omega) fun i hi _ => ?_
      rw [List.length_ofFn] at hi
      rw [List.getElem_ofFn, List.getElem_append]
      split
      · rename_i hlt
        have hslot : slotOf hN i = ⟨i, hi⟩ := Fin.ext (Nat.mod_eq_of_lt hi)
        rw [← hslot, h.kept i hlt (by omega)]
      · rename_i hge
        rw [List.getElem_replicate, h.blank ⟨i, hi⟩ (Nat.not_lt.mp hge)]
    rw [heq, lastOf, Nat.sub_eq_zero_of_le hle, List.drop_zero]
  · -- filled: they are rotated
    have heq : lastOf N xs = (List.ofFn slots).rotate xs.length := by
      refine List.ext_getElem (by simp [lastOf]; omega) fun i hi hi' => ?_
      rw [List.length_rotate, List.length_ofFn] at hi'
      rw [List.getElem_rotate, List.getElem_ofFn]
      simp only [lastOf, List.getElem_drop, List.length_ofFn]
      rw [← h.kept (xs.length - N + i) (by omega) (by omega)]
      congr 1
      refine Fin.ext ?_
      -- two numbers that are `N` apart
      have hsum : i + xs.length = xs.length - N + i + N := by omega
      simp only [slotOf, hsum, Nat.add_mod_right]
    rw [heq, Nat.sub_eq_zero_of_le hle, List.replicate_zero, List.append_nil]
    exact (List.rotate_perm ..).symm

/-- What a slot holds. -/
theorem mem_or_eq_blank (h : Holds hN slots blank xs) (i : Fin N) :
    slots i ∈ xs ∨ slots i = blank := by
  have hmem : slots i ∈ List.ofFn slots := List.mem_ofFn.mpr ⟨i, rfl⟩
  rcases List.mem_append.mp (h.perm.mem_iff.mp hmem) with hlast | hblank
  · exact .inl (mem_of_mem_lastOf hlast)
  · exact .inr (List.eq_of_mem_replicate hblank)

end Holds

end LinuxLearning.Lib
