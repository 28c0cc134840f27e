/-
  LinuxLearning.Lib.ServiceQueue

  How long something waits in a queue that is served in passes.  Between two
  passes the queue grows at its tail and is left alone otherwise.  A pass
  deals with the head, and takes it away or puts it behind the others.  Then
  what is at place `k`, counted from zero, moves up one place with each pass,
  and is dealt with in the pass that has `k` passes before it.
-/

import Mathlib.Data.List.Basic
import LinuxLearning.Lib.Transition

namespace LinuxLearning.Lib

variable {ε ο α : Type*} {isPass : ε → Bool} {serves : ε × ο → α → Prop}
  {hist : List (ε × ο)} {e : ε} {o : ο} {q q' : List α} {x : α} {k : Nat}

/-- The passes in a history. -/
def passes (isPass : ε → Bool) (hist : List (ε × ο)) : Nat := hist.countP fun en => isPass en.1

theorem passes_snoc (hist : List (ε × ο)) (e : ε) (o : ο) :
    passes isPass (hist ++ [(e, o)]) = passes isPass hist + if isPass e then 1 else 0 := by
  rw [passes, passes, List.countP_append, List.countP_singleton]

/-- What a step does to such a queue; `serves en x` says that entry `en` of
    the history deals with `x`. -/
structure QueueStep (isPass : ε → Bool) (serves : ε × ο → α → Prop) (e : ε) (o : ο)
    (q q' : List α) : Prop where
  grows : isPass e = false → q <+: q'
  advances : isPass e = true → q.tail <+: q'
  head : isPass e = true → ∀ x ∈ q.head?, serves (e, o) x

/-- The pass with `k` passes before it deals with `x`. -/
def ServedInPass (isPass : ε → Bool) (serves : ε × ο → α → Prop) (k : Nat)
    (hist : List (ε × ο)) (x : α) : Prop :=
  ∃ pre en post, hist = pre ++ en :: post ∧ isPass en.1 = true ∧ passes isPass pre = k ∧
    serves en x

theorem ServedInPass.snoc (h : ServedInPass isPass serves k hist x) (en : ε × ο) :
    ServedInPass isPass serves k (hist ++ [en]) x := by
  obtain ⟨pre, en', post, rfl, hpass, hk, hserves⟩ := h
  exact ⟨pre, en', post ++ [en], by rw [List.append_assoc, List.cons_append], hpass, hk, hserves⟩

/-- `x` was at place `k` when the history began: it has been dealt with when
    its turn came, or it has moved up by the passes there were. -/
def Waiting (isPass : ε → Bool) (serves : ε × ο → α → Prop) (x : α) (k : Nat)
    (hist : List (ε × ο)) (q : List α) : Prop :=
  ServedInPass isPass serves k hist x ∨
    passes isPass hist ≤ k ∧ q[k - passes isPass hist]? = some x

namespace Waiting

theorem start (hx : q[k]? = some x) : Waiting isPass serves x k ([] : List (ε × ο)) q :=
  .inr ⟨Nat.zero_le k, hx⟩

/-- A place in a list is the same place in a longer one. -/
theorem getElem?_of_prefix {i : Nat} (h : q <+: q') (hx : q[i]? = some x) : q'[i]? = some x := by
  obtain ⟨rest, rfl⟩ := h
  rw [List.getElem?_append_left (List.getElem?_eq_some_iff.mp hx).1]
  exact hx

theorem step (h : Waiting isPass serves x k hist q) (hstep : QueueStep isPass serves e o q q') :
    Waiting isPass serves x k (hist ++ [(e, o)]) q' := by
  rcases h with hserved | ⟨hle, hx⟩
  · exact .inl (hserved.snoc (e, o))
  · cases hpass : isPass e with
    | false =>
        refine .inr ?_
        rw [passes_snoc, hpass, if_neg (by decide), Nat.add_zero]
        exact ⟨hle, getElem?_of_prefix (hstep.grows hpass) hx⟩
    | true =>
        rcases Nat.lt_or_eq_of_le hle with hlt | heq
        -- somebody else is at the head, and `x` moves up
        · refine .inr ?_
          rw [passes_snoc, hpass, if_pos rfl]
          refine ⟨hlt, getElem?_of_prefix (hstep.advances hpass) ?_⟩
          rw [List.getElem?_tail]
          have hplace : k - (passes isPass hist + 1) + 1 = k - passes isPass hist := by omega
          rwa [hplace]
        · refine .inl ⟨hist, (e, o), [], rfl, hpass, heq, hstep.head hpass x ?_⟩
          rw [← heq, Nat.sub_self] at hx
          rw [List.head?_eq_getElem?]
          exact hx

/-- After more than `k` passes its turn has come. -/
theorem served (h : Waiting isPass serves x k hist q) (hk : k < passes isPass hist) :
    ServedInPass isPass serves k hist x :=
  h.resolve_right fun h => Nat.not_lt_of_le h.1 hk

end Waiting

end LinuxLearning.Lib
