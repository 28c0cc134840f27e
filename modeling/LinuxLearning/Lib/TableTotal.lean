/-
  LinuxLearning.Lib.TableTotal

  What the objects on a linked list are worth together, and how the total
  changes as the list does.
-/

import Mathlib.Algebra.Order.BigOperators.Group.List
import Mathlib.Tactic.Abel
import LinuxLearning.Lib.Table

namespace LinuxLearning.Lib

namespace Table

variable {α M : Type*} {t : Table α} {a : Addr} {x : α}

/-- The objects on the list, each for what it is worth, summed up. -/
def total [AddMonoid M] (t : Table α) (worth : α → M) : M :=
  (t.nodes.map fun n => worth n.2).sum

@[simp] theorem total_empty [AddMonoid M] (worth : α → M) : (empty : Table α).total worth = 0 := rfl

@[simp] theorem total_add [AddMonoid M] (t : Table α) (x : α) (worth : α → M) :
    (t.add x).total worth = worth x + t.total worth := List.sum_cons

theorem map_modify_of_notMem {f : α → α} {l : List (Addr × α)} (h : a ∉ l.map Prod.fst) :
    l.map (fun n => (n.1, if n.1 = a then f n.2 else n.2)) = l := by
  induction l with
  | nil => rfl
  | cons n l ih =>
      rw [List.map_cons, List.mem_cons, not_or] at h
      rw [List.map_cons, ih h.2, if_neg fun heq => h.1 heq.symm]

/-- The list around the object at an address, and around what an update makes
    of it. -/
theorem nodes_modify (h : t.get? a = some x) (f : α → α) :
    ∃ l₁ l₂, t.nodes = l₁ ++ (a, x) :: l₂ ∧ (t.modify a f).nodes = l₁ ++ (a, f x) :: l₂ := by
  obtain ⟨l₁, l₂, hsplit⟩ := List.append_of_mem (mem_nodes_iff.mpr h)
  refine ⟨l₁, l₂, hsplit, ?_⟩
  -- the address occurs once
  have hnodup := t.nodup
  rw [hsplit, List.map_append, List.map_cons, List.nodup_middle, List.nodup_cons,
    List.mem_append, not_or] at hnodup
  obtain ⟨⟨h₁, h₂⟩, -⟩ := hnodup
  simp only [modify, mapNodes, hsplit, List.map_append, List.map_cons, if_true,
    map_modify_of_notMem h₁, map_modify_of_notMem h₂]

section Ordered

variable [AddCommMonoid M] [PartialOrder M] [IsOrderedAddMonoid M] {worth : α → M}

/-- An object that is written changes the total as it changes itself. -/
theorem total_modify_le {f : α → α} {out got : M} (h : t.get? a = some x)
    (hle : worth (f x) + out ≤ worth x + got) :
    (t.modify a f).total worth + out ≤ t.total worth + got := by
  obtain ⟨l₁, l₂, hbefore, hafter⟩ := nodes_modify h f
  simp only [total, hbefore, hafter, List.map_append, List.map_cons, List.sum_append, List.sum_cons]
  generalize (l₁.map fun n => worth n.2).sum = before
  generalize (l₂.map fun n => worth n.2).sum = behind
  calc before + (worth (f x) + behind) + out = worth (f x) + out + (before + behind) := by abel
    _ ≤ worth x + got + (before + behind) := add_le_add_left hle _
    _ = before + (worth x + behind) + got := by abel

theorem total_remove_le (hworth : ∀ x, 0 ≤ worth x) (t : Table α) (a : Addr) :
    (t.remove a).total worth ≤ t.total worth := by
  apply List.Sublist.sum_le_sum (List.filter_sublist.map _)
  intro m hm
  obtain ⟨n, -, rfl⟩ := List.mem_map.mp hm
  exact hworth n.2

/-- An update of every object, of which each hands out no more than it
    held. -/
theorem total_mapNodes_le {f : Addr → α → α} {out : α → M}
    (hle : ∀ n ∈ t.nodes, worth (f n.1 n.2) + out n.2 ≤ worth n.2) :
    (t.mapNodes f).total worth + t.total out ≤ t.total worth := by
  have hsum : (t.mapNodes f).total worth + t.total out =
      (t.nodes.map fun n => worth (f n.1 n.2) + out n.2).sum := by
    simp only [total, mapNodes, List.map_map, Function.comp_def, List.sum_map_add]
  rw [hsum]
  exact List.sum_le_sum hle

end Ordered

end Table

end LinuxLearning.Lib
