/-
  LinuxLearning.Lib.Tickets

  Blocks of positions handed out in order.  A dispenser gives each party that
  asks the next block of positions, from `hi` on, and blocks are given back in
  the order of their positions, at `lo`.  The blocks that are out partition
  `[lo, hi)`: no two overlap, and between them they leave no gap.
-/

import Mathlib.Algebra.BigOperators.Group.Finset.Basic
import Mathlib.Order.Interval.Finset.Nat

namespace LinuxLearning.Lib

variable {τ : Type*}

/-- A block of positions: where it starts, and how many positions it has. -/
abbrev Ticket := Nat × Nat

/-- The tickets held partition `[lo, hi)`. -/
structure Tickets (lo hi : Nat) (held : τ → Option Ticket) : Prop where
  le : lo ≤ hi
  within : ∀ {t a n}, held t = some (a, n) → lo ≤ a ∧ 0 < n ∧ a + n ≤ hi
  apart : ∀ {t u a n b m}, t ≠ u → held t = some (a, n) → held u = some (b, m) →
    a + n ≤ b ∨ b + m ≤ a
  cover : ∀ {q}, lo ≤ q → q < hi → ∃ t a n, held t = some (a, n) ∧ a ≤ q ∧ q < a + n

namespace Tickets

variable {lo hi a n : Nat} {held held' : τ → Option Ticket} {t u : τ}

/-- At the start nothing is out. -/
theorem none_held (q : Nat) : Tickets q q (fun _ : τ => none) where
  le := Nat.le_refl q
  within := fun h => by cases h
  apart := fun _ h => by cases h
  cover := fun h₁ h₂ => by omega

/-- Nothing changes for anyone. -/
theorem congr (h : Tickets lo hi held) (heq : ∀ u, held' u = held u) : Tickets lo hi held' := by
  obtain rfl : held' = held := funext heq
  exact h

/-- The next block goes to `t`. -/
theorem issue (h : Tickets lo hi held) (hn : 0 < n) (ht : held t = none)
    (ht' : held' t = some (hi, n)) (hother : ∀ u, u ≠ t → held' u = held u) :
    Tickets lo (hi + n) held' := by
  have hle := h.le
  constructor
  · omega
  · intro u b m hu
    by_cases hut : u = t
    · subst hut
      obtain ⟨rfl, rfl⟩ : hi = b ∧ n = m := by simpa using ht'.symm.trans hu
      omega
    · have := h.within ((hother u hut).symm.trans hu)
      omega
  · intro u v b m c l huv hu hv
    by_cases hut : u = t
    · subst hut
      obtain ⟨rfl, rfl⟩ : hi = b ∧ n = m := by simpa using ht'.symm.trans hu
      have := h.within ((hother v huv.symm).symm.trans hv)
      omega
    · by_cases hvt : v = t
      · subst hvt
        obtain ⟨rfl, rfl⟩ : hi = c ∧ n = l := by simpa using ht'.symm.trans hv
        have := h.within ((hother u hut).symm.trans hu)
        omega
      · exact h.apart huv ((hother u hut).symm.trans hu) ((hother v hvt).symm.trans hv)
  · intro q hlo hhi
    by_cases hq : q < hi
    · obtain ⟨u, b, m, hu, hb, hm⟩ := h.cover hlo hq
      have hut : u ≠ t := by
        rintro rfl
        rw [ht] at hu
        cases hu
      exact ⟨u, b, m, (hother u hut).trans hu, hb, hm⟩
    · exact ⟨t, hi, n, ht', by omega, by omega⟩

/-- The lowest block comes back. -/
theorem redeem (h : Tickets lo hi held) (ht : held t = some (lo, n)) (ht' : held' t = none)
    (hother : ∀ u, u ≠ t → held' u = held u) : Tickets (lo + n) hi held' := by
  have hin := h.within ht
  constructor
  · omega
  · intro u b m hu
    have hut : u ≠ t := by
      rintro rfl
      rw [ht'] at hu
      cases hu
    have hu' := (hother u hut).symm.trans hu
    have hwithin := h.within hu'
    have hapart := h.apart hut hu' ht
    omega
  · intro u v b m c l huv hu hv
    have hut : u ≠ t := by
      rintro rfl
      rw [ht'] at hu
      cases hu
    have hvt : v ≠ t := by
      rintro rfl
      rw [ht'] at hv
      cases hv
    exact h.apart huv ((hother u hut).symm.trans hu) ((hother v hvt).symm.trans hv)
  · intro q hlo hhi
    obtain ⟨u, b, m, hu, hb, hm⟩ := h.cover (by omega : lo ≤ q) hhi
    have hut : u ≠ t := by
      rintro rfl
      obtain ⟨rfl, rfl⟩ : lo = b ∧ n = m := by simpa using ht.symm.trans hu
      omega
    exact ⟨u, b, m, (hother u hut).trans hu, hb, hm⟩

/-- While any block is out, somebody holds the lowest. -/
theorem exists_lowest (h : Tickets lo hi held) (hlt : lo < hi) : ∃ t n, held t = some (lo, n) := by
  obtain ⟨t, a, n, ht, ha, -⟩ := h.cover (Nat.le_refl lo) hlt
  have := h.within ht
  obtain rfl : a = lo := by omega
  exact ⟨t, n, ht⟩

/-- A party that is the only one to hold a block holds the lowest. -/
theorem eq_lo_of_only (h : Tickets lo hi held) (ht : held t = some (a, n))
    (honly : ∀ u, u ≠ t → held u = none) : a = lo := by
  have hin := h.within ht
  obtain ⟨u, m, hu⟩ := h.exists_lowest (by omega)
  by_cases hut : u = t
  · subst hut
    obtain ⟨rfl, -⟩ : a = lo ∧ n = m := by simpa using ht.symm.trans hu
    rfl
  · rw [honly u hut] at hu
    cases hu

/-- How many positions a party holds. -/
def width (o : Option Ticket) : Nat := (o.map Prod.snd).getD 0

@[simp] theorem width_none : width none = 0 := rfl

@[simp] theorem width_some (a n : Nat) : width (some (a, n)) = n := rfl

/-- Between them the parties hold all positions that are out. -/
theorem sum_width [Fintype τ] (h : Tickets lo hi held) :
    ∑ t, width (held t) = hi - lo := by
  classical
  let block (t : τ) : Finset Nat := ((held t).map fun k => Finset.Ico k.1 (k.1 + k.2)).getD ∅
  have hblock : ∀ {t a n}, held t = some (a, n) → block t = Finset.Ico a (a + n) := fun ht => by
    simp [block, ht]
  have hnone : ∀ {t}, held t = none → block t = ∅ := fun ht => by simp [block, ht]
  have hcard : ∀ t, (block t).card = width (held t) := fun t => by
    rcases hheld : held t with _ | ⟨a, n⟩
    · simp [hnone hheld]
    · simp [hblock hheld]
  have hunion : Finset.univ.biUnion block = Finset.Ico lo hi := by
    ext q
    simp only [Finset.mem_biUnion, Finset.mem_univ, true_and, Finset.mem_Ico]
    constructor
    · rintro ⟨t, hq⟩
      rcases hheld : held t with _ | ⟨a, n⟩
      · simp [hnone hheld] at hq
      · rw [hblock hheld, Finset.mem_Ico] at hq
        have := h.within hheld
        omega
    · rintro ⟨hlo, hhi⟩
      obtain ⟨t, a, n, hheld, ha, hn⟩ := h.cover hlo hhi
      exact ⟨t, by rw [hblock hheld, Finset.mem_Ico]; omega⟩
  have hdisjoint : ∀ t ∈ Finset.univ, ∀ u ∈ Finset.univ, t ≠ u →
      Disjoint (block t) (block u) := by
    intro t _ u _ htu
    rcases ht : held t with _ | ⟨a, n⟩
    · rw [hnone ht]
      exact Finset.disjoint_empty_left _
    · rcases hu : held u with _ | ⟨b, m⟩
      · rw [hnone hu]
        exact Finset.disjoint_empty_right _
      · rw [hblock ht, hblock hu, Finset.disjoint_left]
        intro q hq hq'
        rw [Finset.mem_Ico] at hq hq'
        have := h.apart htu ht hu
        omega
  calc ∑ t, width (held t) = ∑ t, (block t).card := Finset.sum_congr rfl fun t _ => (hcard t).symm
    _ = (Finset.univ.biUnion block).card := (Finset.card_biUnion hdisjoint).symm
    _ = hi - lo := by rw [hunion, Nat.card_Ico]

end Tickets

end LinuxLearning.Lib
