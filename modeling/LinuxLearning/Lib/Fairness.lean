/-
  LinuxLearning.Lib.Fairness

  Infinite runs of a transition system, strong fairness, and the rule that
  liveness proofs come down to: a party that steps whenever it is able to
  infinitely often, and whose steps use up a measure that nobody's step
  increases, is in the end not able to step any more.
-/

import Mathlib.Order.Monotone.Basic
import LinuxLearning.Lib.Transition

namespace LinuxLearning.Lib

variable {σ ε ο : Type*} {R : StepRel σ ε ο}

/-- An infinite run; at a moment without an event nothing changes. -/
structure InfiniteRun (R : StepRel σ ε ο) where
  state : Nat → σ
  event : Nat → Option (ε × ο)
  idle : ∀ i, event i = none → state (i + 1) = state i
  step : ∀ i e o, event i = some (e, o) → R (state i) e o (state (i + 1))

/-- One of the events `P` can happen in `s`. -/
def Enabled (R : StepRel σ ε ο) (P : ε → Prop) (s : σ) : Prop := ∃ e o s', P e ∧ R s e o s'

namespace InfiniteRun

variable (r : InfiniteRun R) {P : ε → Prop}

/-- One of the events `P` happens at moment `i`. -/
def Happens (P : ε → Prop) (i : Nat) : Prop := ∃ e o, P e ∧ r.event i = some (e, o)

/-- If the events `P` are possible infinitely often, they happen infinitely
    often. -/
def StronglyFair (P : ε → Prop) : Prop :=
  (∀ n, ∃ i, n ≤ i ∧ Enabled R P (r.state i)) → ∀ n, ∃ i, n ≤ i ∧ r.Happens P i

variable {r}

/-- What every step of the system keeps holds at every moment. -/
theorem invariant {P : σ → Prop} (hinit : P (r.state 0))
    (hstep : ∀ s e o s', P s → R s e o s' → P s') (i : Nat) : P (r.state i) := by
  induction i with
  | zero => exact hinit
  | succ i ih =>
      cases h : r.event i with
      | none =>
          rw [r.idle i h]
          exact ih
      | some en => exact hstep _ _ _ _ ih (r.step i en.1 en.2 h)

/-- What happened before moment `i`. -/
def history (r : InfiniteRun R) : Nat → List (ε × ο)
  | 0 => []
  | i + 1 => r.history i ++ (r.event i).toList

/-- Up to any moment the run is a finite one. -/
theorem run_history (r : InfiniteRun R) (i : Nat) :
    Run R (r.state 0) (r.history i) (r.state i) := by
  induction i with
  | zero => exact .start
  | succ i ih =>
      cases h : r.event i with
      | none =>
          rw [history, h, Option.toList_none, List.append_nil, r.idle i h]
          exact ih
      | some en =>
          rw [history, h]
          exact ih.step (r.step i en.1 en.2 h)

/-- What stays as it is while the events `P` do not happen, and makes one of
    them possible, does not stay. -/
theorem happens_of_enabled (hfair : r.StronglyFair P) {Q : σ → Prop} {n : Nat} (hn : Q (r.state n))
    (hstay : ∀ i, n ≤ i → Q (r.state i) → ¬ r.Happens P i → Q (r.state (i + 1)))
    (henabled : ∀ i, n ≤ i → Q (r.state i) → Enabled R P (r.state i)) :
    ∃ i, n ≤ i ∧ Q (r.state i) ∧ r.Happens P i := by
  by_contra hnever
  have hQ : ∀ i, n ≤ i → Q (r.state i) := fun i hi => by
    induction i, hi using Nat.le_induction with
    | base => exact hn
    | succ i hi ih => exact hstay i hi ih fun hhap => hnever ⟨i, hi, ih, hhap⟩
  obtain ⟨i, hi, hhap⟩ := hfair (fun m => ⟨max n m, Nat.le_max_right n m,
    henabled _ (Nat.le_max_left n m) (hQ _ (Nat.le_max_left n m))⟩) n
  exact hnever ⟨i, hi, hQ i hi, hhap⟩

/-- Numbers that never grow are constant in the end. -/
theorem eventually_const {m : Nat → Nat} {n : Nat} (h : ∀ i, n ≤ i → m (i + 1) ≤ m i) :
    ∃ k, n ≤ k ∧ ∀ i, k ≤ i → m i = m k := by
  generalize hv : m n = v
  induction v using Nat.strong_induction_on generalizing n with
  | _ v ih =>
      by_cases hlow : ∃ i, n ≤ i ∧ m i < v
      · obtain ⟨i, hi, hlt⟩ := hlow
        obtain ⟨k, hk, hconst⟩ := ih (m i) hlt (fun j hj => h j (Nat.le_trans hi hj)) rfl
        exact ⟨k, Nat.le_trans hi hk, hconst⟩
      · refine ⟨n, Nat.le_refl n, fun i hi => ?_⟩
        have hle : m i ≤ m n := by
          induction i, hi using Nat.le_induction with
          | base => exact Nat.le_refl _
          | succ i hi ih => exact Nat.le_trans (h i hi) ih
        have hge : ¬ m i < v := fun hlt => hlow ⟨i, hi, hlt⟩
        omega

/-- The measure rule, from moment `n` on. -/
theorem eventually_disabled (hfair : r.StronglyFair P) (m : σ → Nat) {n : Nat}
    (hle : ∀ i, n ≤ i → m (r.state (i + 1)) ≤ m (r.state i))
    (hlt : ∀ i, n ≤ i → r.Happens P i → m (r.state (i + 1)) < m (r.state i)) :
    ∃ k, n ≤ k ∧ ∀ i, k ≤ i → m (r.state i) = m (r.state k) ∧ ¬ Enabled R P (r.state i) := by
  obtain ⟨k, hk, hconst⟩ := eventually_const (m := fun i => m (r.state i)) hle
  -- from `k` on the events `P` do not happen, so they are possible finitely often
  have hquiet : ∀ i, k ≤ i → ¬ r.Happens P i := fun i hi hhap => by
    have hdrop := hlt i (Nat.le_trans hk hi) hhap
    have h₁ := hconst i hi
    have h₂ := hconst (i + 1) (Nat.le_succ_of_le hi)
    omega
  by_cases hoften : ∀ l, ∃ i, l ≤ i ∧ Enabled R P (r.state i)
  · obtain ⟨i, hi, hhap⟩ := hfair hoften k
    exact absurd hhap (hquiet i hi)
  · obtain ⟨l, hl⟩ := not_forall.mp hoften
    refine ⟨max k l, Nat.le_trans hk (Nat.le_max_left k l), fun i hi => ⟨?_, fun hen => ?_⟩⟩
    · have h₁ := hconst i (Nat.le_trans (Nat.le_max_left k l) hi)
      have h₂ := hconst (max k l) (Nat.le_max_left k l)
      omega
    · exact hl ⟨i, Nat.le_trans (Nat.le_max_right k l) hi, hen⟩

/-! ## Building infinite runs -/

/-- Nothing happens any more. -/
def constant (R : StepRel σ ε ο) (s : σ) : InfiniteRun R where
  state := fun _ => s
  event := fun _ => none
  idle := fun _ _ => rfl
  step := fun _ _ _ h => by cases h

/-- One step, and then the run `r`. -/
def cons {s : σ} {e : ε} {o : ο} (r : InfiniteRun R) (h : R s e o (r.state 0)) :
    InfiniteRun R where
  state := fun i => Nat.casesOn i s r.state
  event := fun i => Nat.casesOn i (some (e, o)) r.event
  idle := fun i hi => by
    cases i with
    | zero => cases hi
    | succ i => exact r.idle i hi
  step := fun i e' o' hi => by
    cases i with
    | zero =>
        obtain ⟨rfl, rfl⟩ := Prod.mk.inj (Option.some.inj hi)
        exact h
    | succ i => exact r.step i e' o' hi

/-- A party that cannot step needs no step. -/
theorem constant_fair {s : σ} (h : ¬ Enabled R P s) : (constant R s).StronglyFair P := by
  intro hoften
  obtain ⟨i, -, hen⟩ := hoften 0
  exact absurd hen h

/-- Fairness is a matter of the far future. -/
theorem cons_fair {s : σ} {e : ε} {o : ο} (h : R s e o (r.state 0)) (hr : r.StronglyFair P) :
    (r.cons h).StronglyFair P := by
  intro hoften n
  have hoften' : ∀ n, ∃ i, n ≤ i ∧ Enabled R P (r.state i) := by
    intro n
    obtain ⟨i, hi, hen⟩ := hoften (n + 1)
    cases i with
    | zero => omega
    | succ i => exact ⟨i, by omega, hen⟩
  obtain ⟨i, hi, hhap⟩ := hr hoften' n
  exact ⟨i + 1, by omega, hhap⟩

theorem history_cons {s : σ} {e : ε} {o : ο} (h : R s e o (r.state 0)) (i : Nat) :
    (r.cons h).history (i + 1) = (e, o) :: r.history i := by
  induction i with
  | zero => rfl
  | succ i ih =>
      rw [history, ih, history]
      rfl

theorem history_constant (s : σ) (i : Nat) : (constant R s).history i = [] := by
  induction i with
  | zero => rfl
  | succ i ih =>
      rw [history, ih]
      rfl

/-- The history up to a moment is the beginning of every later one. -/
theorem history_prefix (r : InfiniteRun R) {i j : Nat} (h : i ≤ j) :
    r.history i <+: r.history j := by
  induction j, h using Nat.le_induction with
  | base => exact List.prefix_refl _
  | succ j _ ih => exact ih.trans (List.prefix_append _ _)

/-- A finite run in front of an infinite one. -/
theorem exists_prepend {s s' : σ} {hist : List (ε × ο)} (hrun : Run R s hist s')
    (hr : r.state 0 = s') :
    ∃ r' : InfiniteRun R, r'.state 0 = s ∧ (∀ i, r'.state (hist.length + i) = r.state i) ∧
      (∀ i, r'.history (hist.length + i) = hist ++ r.history i) ∧
      ∀ P, r.StronglyFair P → r'.StronglyFair P := by
  induction hrun generalizing r with
  | start => exact ⟨r, hr, fun i => by simp, fun i => by simp, fun _ h => h⟩
  | @step hist t e o t' _ hR ih =>
      rw [← hr] at hR
      obtain ⟨r', h₀, hstate, hhist, hfair⟩ := ih (r := r.cons hR) rfl
      have hlen : ∀ i, (hist ++ [(e, o)]).length + i = hist.length + (i + 1) := fun i => by
        rw [List.length_append, List.length_singleton]
        omega
      refine ⟨r', h₀, fun i => ?_, fun i => ?_, fun P h => hfair P (cons_fair hR h)⟩
      · rw [hlen, hstate]
        rfl
      · rw [hlen, hhist, history_cons, List.append_assoc]
        rfl

/-- A finite run in front of an infinite one, as fair as that. -/
theorem exists_append {s s' : σ} {hist : List (ε × ο)} (hrun : Run R s hist s')
    (hr : r.state 0 = s') :
    ∃ r' : InfiniteRun R, r'.state 0 = s ∧ ∀ P, r.StronglyFair P → r'.StronglyFair P := by
  obtain ⟨r', h₀, -, -, hfair⟩ := exists_prepend hrun hr
  exact ⟨r', h₀, hfair⟩

/-- A finite run through `mid` that goes on with nothing: its moments, and its
    history. -/
theorem exists_idle_after {s mid s' : σ} {hist₁ hist₂ : List (ε × ο)} (h₁ : Run R s hist₁ mid)
    (h₂ : Run R mid hist₂ s') :
    ∃ r : InfiniteRun R, r.state 0 = s ∧ r.state hist₁.length = mid ∧
      (∀ i, r.history i <+: hist₁ ++ hist₂) ∧ ∀ P, ¬ Enabled R P s' → r.StronglyFair P := by
  obtain ⟨r₂, h₀, -, hhist, hfair⟩ := exists_prepend (r := constant R s') h₂ rfl
  obtain ⟨r₁, h₀', hstate, hhist', hfair'⟩ := exists_prepend (r := r₂) h₁ h₀
  refine ⟨r₁, h₀', ?_, fun i => ?_, fun P hP => hfair' P (hfair P (constant_fair hP))⟩
  · rw [← Nat.add_zero hist₁.length, hstate, h₀]
  · have hfull : r₁.history (hist₁.length + (hist₂.length + i)) = hist₁ ++ hist₂ := by
      rw [hhist', hhist, history_constant, List.append_nil]
    rw [← hfull]
    exact r₁.history_prefix (by omega)

end InfiniteRun

end LinuxLearning.Lib
