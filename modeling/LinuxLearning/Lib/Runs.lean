/-
  LinuxLearning.Lib.Runs

  The runs of elements with a property in a list: the non-empty pieces that
  are left when the list is split at every element without it.  A walk that
  only remembers whether the element before had the property counts where
  runs begin, which is how many there are.
-/

import Mathlib.Data.List.Basic

namespace LinuxLearning.Lib

variable {α : Type*} {p : α → Bool}

/-- The maximal runs of elements with `p`, none of them empty. -/
def runs (p : α → Bool) (xs : List α) : List (List α) :=
  (xs.splitOnP fun x => !p x).filter fun r => !r.isEmpty

/-- How many runs begin in a list, `inRun` telling whether one comes up to its
    front. -/
def runStarts (p : α → Bool) : Bool → List α → Nat
  | _, [] => 0
  | inRun, x :: xs => (if p x && !inRun then 1 else 0) + runStarts p (p x) xs

/-- Whether a run comes up to the end. -/
def inRunBehind (p : α → Bool) (inRun : Bool) (xs : List α) : Bool :=
  (xs.getLast?.map p).getD inRun

theorem runStarts_append (p : α → Bool) (inRun : Bool) (xs ys : List α) :
    runStarts p inRun (xs ++ ys) =
      runStarts p inRun xs + runStarts p (inRunBehind p inRun xs) ys := by
  induction xs generalizing inRun with
  | nil => simp [runStarts, inRunBehind]
  | cons x xs ih =>
      have hbehind : inRunBehind p inRun (x :: xs) = inRunBehind p (p x) xs := by
        rw [inRunBehind, List.getLast?_cons, inRunBehind]
        cases xs.getLast? <;> rfl
      rw [List.cons_append, runStarts, runStarts, ih, hbehind, Nat.add_assoc]

/-- No run begins behind `x` just if each element without `p` is followed by
    another one. -/
theorem runStarts_eq_zero_iff (p : α → Bool) (x : α) (xs : List α) :
    runStarts p (p x) xs = 0 ↔ (x :: xs).IsChain fun a b => p a = false → p b = false := by
  induction xs generalizing x with
  | nil => simp [runStarts]
  | cons y ys ih =>
      rw [runStarts, Nat.add_eq_zero_iff, ih, List.isChain_cons_cons]
      cases p x <;> cases p y <;> simp

/-- The first piece and the others: behind a run the first one is that run's
    end, elsewhere it counts if it is not empty. -/
theorem exists_splitOnP_eq (p : α → Bool) (xs : List α) :
    ∃ q qs, (xs.splitOnP fun x => !p x) = q :: qs ∧
      runStarts p true xs = (qs.filter fun r => !r.isEmpty).length ∧
      runStarts p false xs = ((q :: qs).filter fun r => !r.isEmpty).length := by
  induction xs with
  | nil => exact ⟨[], [], List.splitOnP_nil, rfl, rfl⟩
  | cons x xs ih =>
      obtain ⟨q, qs, hsplit, hrun, hfree⟩ := ih
      rw [List.splitOnP_cons_eq_if_modifyHead, hsplit]
      cases hx : p x with
      -- `x` joins the first piece, or is split off in front of it
      | true => exact ⟨x :: q, qs, by simp, by simp [runStarts, hx, hrun], by
          simp [runStarts, hx, hrun, Nat.add_comm]⟩
      | false => exact ⟨[], q :: qs, by simp, by simp [runStarts, hx, hfree], by
          simp [runStarts, hx, hfree]⟩

/-- There are as many runs as begin. -/
theorem length_runs (p : α → Bool) (xs : List α) :
    (runs p xs).length = runStarts p false xs := by
  obtain ⟨q, qs, hsplit, -, hfree⟩ := exists_splitOnP_eq p xs
  rw [hfree, runs, hsplit]

end LinuxLearning.Lib
