/-
  LinuxLearning.Lib.Monitor

  Threads around a mutex with one condition variable.  A program places each
  of its threads outside the monitor, inside it, or asleep on the condition;
  what every use of a mutex comes down to is that the owner is the one thread
  inside.  The rules below say how the four monitor operations move a thread
  while all others stay where they are.
-/

import Mathlib.Logic.Basic

namespace LinuxLearning.Lib

variable {τ : Type*}

/-- Where a thread is with respect to a mutex and its condition variable. -/
inductive Stance where
  /-- It does not hold the mutex; a woken thread that has not taken the mutex
      again is outside too. -/
  | outside
  /-- It holds the mutex. -/
  | inside
  /-- It waits on the condition and has released the mutex. -/
  | asleep
deriving DecidableEq, Repr

/-- The mutex's owner is the one thread inside. -/
def Guards (owner : Option τ) (stance : τ → Stance) : Prop :=
  ∀ t, stance t = .inside ↔ owner = some t

namespace Guards

variable {owner : Option τ} {f g : τ → Stance} {t u : τ}

/-- Mutual exclusion. -/
theorem unique (h : Guards owner f) (ht : f t = .inside) (hu : f u = .inside) : t = u := by
  have htu : some t = some u := ((h t).mp ht).symm.trans ((h u).mp hu)
  exact Option.some.inj htu

/-- Nobody is inside while the mutex is free. -/
theorem not_inside (h : Guards none f) (t : τ) : f t ≠ .inside := by
  intro ht
  cases (h t).mp ht

/-- `t` takes the free mutex. -/
theorem acquire (h : Guards none f) (ht : g t = .inside) (hother : ∀ u, u ≠ t → g u = f u) :
    Guards (some t) g := by
  intro u
  by_cases hu : u = t
  · subst hu
    exact iff_of_true ht rfl
  · rw [hother u hu]
    refine iff_of_false (h.not_inside u) fun heq => hu ?_
    exact (Option.some.inj heq).symm

/-- The owner gives the mutex up, to go on or to sleep. -/
theorem leave (h : Guards owner f) (ht : f t = .inside) (hg : g t ≠ .inside)
    (hother : ∀ u, u ≠ t → g u = f u) : Guards none g := by
  intro u
  refine iff_of_false (fun hu => ?_) (Option.some_ne_none u ∘ Eq.symm)
  by_cases hut : u = t
  · subst hut
    exact hg hu
  · rw [hother u hut] at hu
    exact hut (h.unique hu ht)

/-- A step that lets nobody in or out, as a signal does. -/
theorem keep (h : Guards owner f) (hsame : ∀ u, g u = .inside ↔ f u = .inside) :
    Guards owner g :=
  fun u => (hsame u).trans (h u)

end Guards

/-- How the mutex's owner changes when one thread `t` moves from `st` to
    `st'`. -/
inductive Passes (t : τ) (st st' : Stance) : Option τ → Option τ → Prop
  /-- Neither in nor out. -/
  | stays {owner : Option τ} : (st' = .inside ↔ st = .inside) → Passes t st st' owner owner
  | enters : st' = .inside → Passes t st st' none (some t)
  | leaves {owner : Option τ} : st = .inside → st' ≠ .inside → Passes t st st' owner none

/-- The move of one thread keeps mutual exclusion. -/
theorem Guards.move {owner owner' : Option τ} {f g : τ → Stance} {t : τ} (h : Guards owner f)
    (hp : Passes t (f t) (g t) owner owner') (hother : ∀ u, u ≠ t → g u = f u) :
    Guards owner' g := by
  cases hp with
  | stays hiff =>
      refine h.keep fun u => ?_
      by_cases hu : u = t
      · rw [hu]
        exact hiff
      · rw [hother u hu]
  | enters hin => exact h.acquire hin hother
  | leaves hin hout => exact h.leave hin hout hother

end LinuxLearning.Lib
