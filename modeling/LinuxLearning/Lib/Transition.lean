/-
  LinuxLearning.Lib.Transition

  Runs of a labelled transition system with observable outcomes, and the
  induction rules for invariants that may speak about the whole history.

  A run keeps its history oldest entry first, so that "at some point before"
  is membership in a prefix.  `Guarded` restricts a relation to the steps
  that meet a condition on the state before the step and the event: a
  theorem about `Run (Guarded C R)` is a theorem about every run whose steps
  all meet `C`.  `exec` evaluates a partial step function along a list of
  events and yields such a run.
-/

import Mathlib.Data.List.Induction

namespace LinuxLearning.Lib

variable {σ ε ο χ κ γ ω : Type*}

/-- `R s e o s'`: event `e` takes `s` to `s'` with observable outcome `o`. -/
abbrev StepRel (σ ε ο : Type*) := σ → ε → ο → σ → Prop

/-- `Run R s₀ hist s`: the steps recorded in `hist` (oldest first) lead from
    `s₀` to `s`. -/
inductive Run (R : StepRel σ ε ο) (s₀ : σ) : List (ε × ο) → σ → Prop
  | start : Run R s₀ [] s₀
  | step {hist : List (ε × ο)} {s : σ} {e : ε} {o : ο} {s' : σ} :
      Run R s₀ hist s → R s e o s' → Run R s₀ (hist ++ [(e, o)]) s'

/-- The steps of `R` that meet `C`, a condition on the state before the step
    and the event. -/
def Guarded (C : σ → ε → Prop) (R : StepRel σ ε ο) : StepRel σ ε ο :=
  fun s e o s' => C s e ∧ R s e o s'

/-- The steps of a partial step function. -/
def StepsOf (f : σ → ε → Except χ (σ × ο)) : StepRel σ ε ο :=
  fun s e o s' => f s e = .ok (s', o)

/-- The steps of a partial step function that reports nothing. -/
def MovesOf (f : σ → ε → Option σ) : StepRel σ ε Unit :=
  fun s e _ s' => f s e = some s'

namespace Run

variable {R R' : StepRel σ ε ο} {s₀ s s' : σ} {hist hist₁ hist₂ : List (ε × ο)}

/-- Invariance: what holds of the start and is preserved by every step holds
    of every run. -/
theorem invariant {P : List (ε × ο) → σ → Prop} (hinit : P [] s₀)
    (hstep : ∀ hist s e o s', P hist s → R s e o s' → P (hist ++ [(e, o)]) s')
    (hrun : Run R s₀ hist s) : P hist s := by
  induction hrun with
  | start => exact hinit
  | step _ hR ih => exact hstep _ _ _ _ _ ih hR

/-- Invariance componentwise.  Each component `k` of the state has a history
    of its own, the operations `ops o k` its steps report; an invariant of
    one component's history and value is kept by every run if it is kept by
    every step's effect on that component. -/
theorem component_invariant {proj : σ → κ → Option γ} {ops : ο → κ → List ω}
    {Inv : List ω → Option γ → Prop} (hinit : ∀ k, Inv [] (proj s₀ k))
    (hstep : ∀ s e o s', R s e o s' → ∀ k past,
      Inv past (proj s k) → Inv (past ++ ops o k) (proj s' k))
    (hrun : Run R s₀ hist s) (k : κ) :
    Inv (hist.flatMap fun en => ops en.2 k) (proj s k) := by
  induction hrun with
  | start => exact hinit k
  | step _ hR ih =>
      rw [List.flatMap_append, List.flatMap_singleton]
      exact hstep _ _ _ _ hR k _ ih

/-- A run of a smaller relation is a run of a larger one. -/
theorem mono (h : ∀ s e o s', R s e o s' → R' s e o s') (hrun : Run R s₀ hist s) :
    Run R' s₀ hist s := by
  induction hrun with
  | start => exact .start
  | step _ hR ih => exact .step ih (h _ _ _ _ hR)

/-- A guarded run is a run. -/
theorem of_guarded {C : σ → ε → Prop} (hrun : Run (Guarded C R) s₀ hist s) :
    Run R s₀ hist s :=
  hrun.mono fun _ _ _ _ h => h.2

/-- Where each step has the property behind it just if the property was there
    before and the step meets the condition, a run has it just if all of its
    steps meet the condition.  The property may speak about the history. -/
theorem iff_guarded_history {I P : List (ε × ο) → σ → Prop} {C : σ → ε → Prop}
    (hinit : I [] s₀) (hP : P [] s₀)
    (hinv : ∀ hist s e o s', I hist s → R s e o s' → I (hist ++ [(e, o)]) s')
    (hstep : ∀ hist s e o s', I hist s → R s e o s' →
      (P (hist ++ [(e, o)]) s' ↔ P hist s ∧ C s e)) (hrun : Run R s₀ hist s) :
    P hist s ↔ Run (Guarded C R) s₀ hist s := by
  have hkept : ∀ {hist s}, Run R s₀ hist s → I hist s := fun hrun => hrun.invariant hinit hinv
  constructor
  · intro hs
    induction hrun with
    | start => exact .start
    | step hrun hR ih =>
        obtain ⟨hs, hC⟩ := (hstep _ _ _ _ _ (hkept hrun) hR).mp hs
        exact (ih hs).step ⟨hC, hR⟩
  · intro hguarded
    clear hrun
    induction hguarded with
    | start => exact hP
    | step hrun hR ih => exact (hstep _ _ _ _ _ (hkept hrun.of_guarded) hR.2).mpr ⟨ih, hR.1⟩

/-- The same for a property of the state. -/
theorem iff_guarded {I P : σ → Prop} {C : σ → ε → Prop} (hinit : I s₀) (hP : P s₀)
    (hinv : ∀ s e o s', I s → R s e o s' → I s')
    (hstep : ∀ s e o s', I s → R s e o s' → (P s' ↔ P s ∧ C s e)) (hrun : Run R s₀ hist s) :
    P s ↔ Run (Guarded C R) s₀ hist s :=
  hrun.iff_guarded_history (I := fun _ => I) (P := fun _ => P) hinit hP
    (fun _ s e o s' => hinv s e o s') fun _ s e o s' => hstep s e o s'

/-- Runs compose. -/
theorem append (h₁ : Run R s₀ hist₁ s) (h₂ : Run R s hist₂ s') :
    Run R s₀ (hist₁ ++ hist₂) s' := by
  induction h₂ with
  | start => simpa using h₁
  | step _ hR ih =>
      rw [← List.append_assoc]
      exact .step ih hR

/-- The last entry of a history is the last step of the run. -/
theorem last_step {e : ε} {o : ο} (hrun : Run R s₀ (hist ++ [(e, o)]) s') :
    ∃ s, Run R s₀ hist s ∧ R s e o s' := by
  generalize hh : hist ++ [(e, o)] = full at hrun
  cases hrun with
  | start => simp at hh
  | step hpre hR =>
      obtain ⟨rfl, hen⟩ := List.append_inj' hh rfl
      obtain ⟨rfl, rfl⟩ : e = _ ∧ o = _ := by simpa using hen
      exact ⟨_, hpre, hR⟩

/-- The steps before an entry of the history are a run. -/
theorem of_append (hrun : Run R s₀ (hist₁ ++ hist₂) s) : ∃ s', Run R s₀ hist₁ s' := by
  generalize hh : hist₁ ++ hist₂ = full at hrun
  induction hrun generalizing hist₂ with
  | start =>
      obtain ⟨rfl, -⟩ := List.append_eq_nil_iff.mp hh
      exact ⟨s₀, .start⟩
  | @step pre s e o s' hpre hR ih =>
      rcases List.eq_nil_or_concat hist₂ with rfl | ⟨rest, en, rfl⟩
      · rw [List.append_nil] at hh
        exact ⟨s', hh ▸ hpre.step hR⟩
      · rw [List.concat_eq_append, ← List.append_assoc] at hh
        exact ih (List.append_inj' hh rfl).1

/-- The history of a step function determines the state. -/
theorem deterministic {f : σ → ε → Except χ (σ × ο)} (h₁ : Run (StepsOf f) s₀ hist s)
    (h₂ : Run (StepsOf f) s₀ hist s') : s = s' := by
  induction h₁ generalizing s' with
  | start =>
      generalize hh : ([] : List (ε × ο)) = full at h₂
      cases h₂ with
      | start => rfl
      | step => simp at hh
  | @step pre t e o t' _ hR ih =>
      obtain ⟨t₂, hpre, hR'⟩ := h₂.last_step
      obtain rfl := ih hpre
      have heq : t' = s' ∧ o = o := by simpa [StepsOf] using hR.symm.trans hR'
      exact heq.1

/-- Refinement by a view: where every step of a run is one of the abstract
    system under the view, or is not seen there, the run has an abstract one
    that leads to the view of its end.  `I` is what holds in the run. -/
theorem exists_view {τ ε' ο' : Type*} {R' : StepRel τ ε' ο'} {I : σ → Prop} (view : σ → τ)
    (hinit : I s₀) (hinv : ∀ s e o s', I s → R s e o s' → I s')
    (hstep : ∀ s e o s', I s → R s e o s' →
      view s' = view s ∨ ∃ e' o', R' (view s) e' o' (view s')) (hrun : Run R s₀ hist s) :
    I s ∧ ∃ hist', Run R' (view s₀) hist' (view s) := by
  induction hrun with
  | start => exact ⟨hinit, [], .start⟩
  | @step hist s e o s' _ hR ih =>
      obtain ⟨hI, hist', hrun'⟩ := ih
      refine ⟨hinv s e o s' hI hR, ?_⟩
      rcases hstep s e o s' hI hR with heq | ⟨e', o', hR'⟩
      · exact ⟨hist', heq ▸ hrun'⟩
      · exact ⟨hist' ++ [(e', o')], hrun'.step hR'⟩

/-- Where every step that `p` picks takes one off a measure, and no other
    changes it, the measure counts them. -/
theorem countP_add_measure {p : ε × ο → Bool} {m : σ → Nat}
    (hstep : ∀ s e o s', R s e o s' → m s' + (if p (e, o) then 1 else 0) = m s)
    (hrun : Run R s₀ hist s) : hist.countP p + m s = m s₀ := by
  induction hrun with
  | start => exact Nat.zero_add _
  | @step hist s e o s' _ hR ih =>
      have hless := hstep s e o s' hR
      rw [List.countP_append, List.countP_singleton]
      omega

end Run

/-! ## Conditions on every entry of a history -/

/-- Every entry of the history, taken with what was recorded before it, meets
    `P`. -/
def AtEveryEntry (P : List (ε × ο) → ε × ο → Prop) (hist : List (ε × ο)) : Prop :=
  ∀ pre en post, hist = pre ++ en :: post → P pre en

theorem atEveryEntry_nil (P : List (ε × ο) → ε × ο → Prop) : AtEveryEntry P [] := by
  intro pre en post h
  simp at h

theorem atEveryEntry_snoc {P : List (ε × ο) → ε × ο → Prop} {hist : List (ε × ο)} {en : ε × ο} :
    AtEveryEntry P (hist ++ [en]) ↔ AtEveryEntry P hist ∧ P hist en := by
  constructor
  · intro h
    refine ⟨fun pre x post hsplit => h pre x (post ++ [en]) ?_, h hist en [] rfl⟩
    rw [hsplit, List.append_assoc, List.cons_append]
  · rintro ⟨hall, hlast⟩ pre x post hsplit
    rcases List.eq_nil_or_concat post with rfl | ⟨post', y, rfl⟩
    · obtain ⟨rfl, hx⟩ := List.append_inj' hsplit rfl
      obtain rfl : en = x := by simpa using hx
      exact hlast
    · rw [List.concat_eq_append, ← List.cons_append, ← List.append_assoc] at hsplit
      exact hall pre x post' (List.append_inj' hsplit rfl).1

/-- A condition on every entry holds along the beginning of a history. -/
theorem AtEveryEntry.of_prefix {P : List (ε × ο) → ε × ο → Prop} {hist hist' : List (ε × ο)}
    (h : AtEveryEntry P hist') (hpre : hist <+: hist') : AtEveryEntry P hist := by
  obtain ⟨rest, rfl⟩ := hpre
  intro pre en post hsplit
  exact h pre en (post ++ rest) (by rw [hsplit, List.append_assoc, List.cons_append])

/-- `AtEveryEntry` as a walk along the history; `past` is what was passed. -/
def everyEntry (P : List (ε × ο) → ε × ο → Bool) :
    List (ε × ο) → List (ε × ο) → Bool
  | _, [] => true
  | past, en :: rest => P past en && everyEntry P (past ++ [en]) rest

theorem everyEntry_snoc {P : List (ε × ο) → ε × ο → Bool} {past hist : List (ε × ο)}
    {en : ε × ο} :
    everyEntry P past (hist ++ [en]) = (everyEntry P past hist && P (past ++ hist) en) := by
  induction hist generalizing past with
  | nil => simp [everyEntry]
  | cons x rest ih => simp [everyEntry, ih, Bool.and_assoc]

theorem everyEntry_iff {P : List (ε × ο) → ε × ο → Bool} {hist : List (ε × ο)} :
    everyEntry P [] hist = true ↔ AtEveryEntry (fun past en => P past en = true) hist := by
  induction hist using List.reverseRecOn with
  | nil => exact iff_of_true rfl (atEveryEntry_nil _)
  | append_singleton hist en ih =>
      rw [everyEntry_snoc, Bool.and_eq_true, ih, atEveryEntry_snoc, List.nil_append]

instance {P : List (ε × ο) → ε × ο → Prop} [∀ past en, Decidable (P past en)]
    (hist : List (ε × ο)) : Decidable (AtEveryEntry P hist) :=
  decidable_of_iff (everyEntry (fun past en => decide (P past en)) [] hist = true)
    (by rw [everyEntry_iff]; simp only [decide_eq_true_eq])

/-! ## Running a step function -/

/-- A sequence of two computations succeeds when both do. -/
theorem bind_eq_ok_iff {α β : Type*} {x : Except χ α} {f : α → Except χ β} {b : β} :
    x.bind f = .ok b ↔ ∃ a, x = .ok a ∧ f a = .ok b := by
  cases x <;> simp [Except.bind]

/-- It fails with the first failure. -/
theorem bind_eq_error_iff {α β : Type*} {x : Except χ α} {f : α → Except χ β} {c : χ} :
    x.bind f = .error c ↔ x = .error c ∨ ∃ a, x = .ok a ∧ f a = .error c := by
  cases x <;> simp [Except.bind]

theorem map_eq_ok_iff {α β : Type*} {x : Except χ α} {f : α → β} {b : β} :
    x.map f = .ok b ↔ ∃ a, x = .ok a ∧ f a = b := by
  cases x <;> simp [Except.map]

/-- Run `f` along a list of events, collecting the history; stops at the
    first event that has no step. -/
def exec (f : σ → ε → Except χ (σ × ο)) : σ → List ε → Except χ (List (ε × ο) × σ)
  | s, [] => .ok ([], s)
  | s, e :: es =>
      match f s e with
      | .error x => .error x
      | .ok (s', o) =>
          match exec f s' es with
          | .error x => .error x
          | .ok (hist, s'') => .ok ((e, o) :: hist, s'')

theorem exec_cons_ok {f : σ → ε → Except χ (σ × ο)} {s s' : σ} {e : ε} {es : List ε}
    {hist : List (ε × ο)} (h : exec f s (e :: es) = .ok (hist, s')) :
    ∃ s₁ o rest, f s e = .ok (s₁, o) ∧ exec f s₁ es = .ok (rest, s') ∧ hist = (e, o) :: rest := by
  simp only [exec] at h
  cases hf : f s e with
  | error x => simp [hf] at h
  | ok r =>
      cases hx : exec f r.1 es with
      | error x => simp [hf, hx] at h
      | ok rest =>
          obtain ⟨rfl, rfl⟩ : (e, r.2) :: rest.1 = hist ∧ rest.2 = s' := by
            simpa [hf, hx] using h
          exact ⟨r.1, r.2, rest.1, rfl, hx, rfl⟩

theorem exec_cons {f : σ → ε → Except χ (σ × ο)} {s s₁ s' : σ} {e : ε} {o : ο} {es : List ε}
    {rest : List (ε × ο)} (hstep : f s e = .ok (s₁, o)) (hrest : exec f s₁ es = .ok (rest, s')) :
    exec f s (e :: es) = .ok ((e, o) :: rest, s') := by
  simp only [exec, hstep, hrest]

theorem exec_append_ok {f : σ → ε → Except χ (σ × ο)} {s s' : σ} {es₁ es₂ : List ε}
    {hist : List (ε × ο)} (h : exec f s (es₁ ++ es₂) = .ok (hist, s')) :
    ∃ hist₁ mid hist₂, exec f s es₁ = .ok (hist₁, mid) ∧ exec f mid es₂ = .ok (hist₂, s') ∧
      hist = hist₁ ++ hist₂ := by
  induction es₁ generalizing s hist with
  | nil => exact ⟨[], s, hist, rfl, h, rfl⟩
  | cons e es ih =>
      obtain ⟨s₁, o, rest, hf, hx, rfl⟩ := exec_cons_ok h
      obtain ⟨hist₁, mid, hist₂, h₁, h₂, rfl⟩ := ih hx
      exact ⟨(e, o) :: hist₁, mid, hist₂, exec_cons hf h₁, h₂, rfl⟩

/-- What `exec` returns is a run. -/
theorem run_of_exec {f : σ → ε → Except χ (σ × ο)} {s s' : σ} {es : List ε}
    {hist : List (ε × ο)} (h : exec f s es = .ok (hist, s')) :
    Run (StepsOf f) s hist s' := by
  induction es generalizing s hist with
  | nil =>
      obtain ⟨rfl, rfl⟩ : [] = hist ∧ s = s' := by simpa [exec] using h
      exact .start
  | cons e es ih =>
      obtain ⟨s₁, o, rest, hf, hx, rfl⟩ := exec_cons_ok h
      exact Run.append (.step .start hf) (ih hx)

/-- A list of events that all meet a condition makes a guarded run. -/
theorem guarded_run_of_exec {C : ε → Prop} {f : σ → ε → Except χ (σ × ο)} {s s' : σ}
    {es : List ε} {hist : List (ε × ο)} (hC : ∀ e ∈ es, C e) (h : exec f s es = .ok (hist, s')) :
    Run (Guarded (fun _ e => C e) (StepsOf f)) s hist s' := by
  induction es generalizing s hist with
  | nil =>
      obtain ⟨rfl, rfl⟩ : [] = hist ∧ s = s' := by simpa [exec] using h
      exact .start
  | cons e es ih =>
      obtain ⟨s₁, o, rest, hf, hx, rfl⟩ := exec_cons_ok h
      rw [List.forall_mem_cons] at hC
      exact Run.append (.step .start ⟨hC.1, hf⟩) (ih hC.2 hx)

/-- Forward simulation: where every event has a step of `f`, matched by a step
    of `R` with the same outcome, every list of events runs through, matched
    by a run of `R` with the same history. -/
theorem exec_simulates {τ : Type*} {f : σ → ε → Except χ (σ × ο)} {R : StepRel τ ε ο}
    {Sim : σ → τ → Prop} {s : σ} {a : τ}
    (hstep : ∀ s a e, Sim s a → ∃ s' o a', f s e = .ok (s', o) ∧ R a e o a' ∧ Sim s' a')
    (h : Sim s a) (es : List ε) :
    ∃ hist s' a', exec f s es = .ok (hist, s') ∧ Run R a hist a' ∧ Sim s' a' := by
  induction es generalizing s a with
  | nil => exact ⟨[], s, a, rfl, .start, h⟩
  | cons e es ih =>
      obtain ⟨s₁, o, a₁, hf, hR, h₁⟩ := hstep s a e h
      obtain ⟨hist, s', a', hrest, hrun, hlast⟩ := ih h₁
      exact ⟨(e, o) :: hist, s', a', exec_cons hf hrest, Run.append (.step .start hR) hrun, hlast⟩

/-- Every event has its step, and `P` holds of the history and the last
    state. -/
def execsTo (f : σ → ε → Except χ (σ × ο)) (s : σ) (es : List ε)
    (P : List (ε × ο) → σ → Bool) : Bool :=
  match exec f s es with
  | .error _ => false
  | .ok (hist, s') => P hist s'

theorem exec_of_execsTo {f : σ → ε → Except χ (σ × ο)} {s : σ} {l : List ε}
    {P : List (ε × ο) → σ → Bool} (h : execsTo f s l P = true) :
    ∃ hist s', exec f s l = .ok (hist, s') ∧ P hist s' = true := by
  unfold execsTo at h
  cases hexec : exec f s l with
  | error x =>
      rw [hexec] at h
      cases h
  | ok r =>
      rw [hexec] at h
      exact ⟨r.1, r.2, rfl, h⟩

/-- `f` made to fail, with `x`, on the steps that do not meet `C`. -/
def guardStep (C : σ → ε → Prop) [∀ s e, Decidable (C s e)] (x : χ)
    (f : σ → ε → Except χ (σ × ο)) : σ → ε → Except χ (σ × ο) := fun s e =>
  if C s e then f s e else .error x

theorem guarded_of_guardStep {C : σ → ε → Prop} [∀ s e, Decidable (C s e)] {x : χ}
    {f : σ → ε → Except χ (σ × ο)} {s s' : σ} {e : ε} {o : ο}
    (h : guardStep C x f s e = .ok (s', o)) : Guarded C (StepsOf f) s e o s' := by
  unfold guardStep at h
  split at h
  · rename_i hC
    exact ⟨hC, h⟩
  · cases h

theorem guarded_of_exec {C : σ → ε → Prop} [∀ s e, Decidable (C s e)] {x : χ}
    {f : σ → ε → Except χ (σ × ο)} {s s' : σ} {es : List ε} {hist : List (ε × ο)}
    (h : exec (guardStep C x f) s es = .ok (hist, s')) :
    Run (Guarded C (StepsOf f)) s hist s' :=
  (run_of_exec h).mono fun _ _ _ _ hstep => guarded_of_guardStep hstep

/-! ## Running a step function that reports nothing -/

/-- Make the moves `es` one after the other. -/
def moves (f : σ → ε → Option σ) : σ → List ε → Option σ
  | s, [] => some s
  | s, e :: es => (f s e).bind fun s' => moves f s' es

@[simp] theorem moves_nil (f : σ → ε → Option σ) (s : σ) : moves f s [] = some s := rfl

/-- Moves make a run. -/
theorem run_of_moves {f : σ → ε → Option σ} {s s' : σ} {es : List ε} (h : moves f s es = some s') :
    Run (MovesOf f) s (es.map (·, ())) s' := by
  induction es generalizing s with
  | nil =>
      obtain rfl : s = s' := by simpa [moves] using h
      exact .start
  | cons e es ih =>
      obtain ⟨s₁, hstep, hrest⟩ := Option.bind_eq_some_iff.mp h
      exact Run.append (.step (e := e) (o := ()) .start hstep) (ih hrest)

/-- Every move can be made, and `P` holds of the last state. -/
def movesTo (f : σ → ε → Option σ) (s : σ) (es : List ε) (P : σ → Bool) : Bool :=
  (moves f s es).any P

theorem run_of_movesTo {f : σ → ε → Option σ} {s : σ} {l : List ε} {P : σ → Bool}
    (h : movesTo f s l P = true) :
    ∃ s', Run (MovesOf f) s (l.map (·, ())) s' ∧ P s' = true := by
  cases hmoves : moves f s l with
  | none => simp [movesTo, hmoves] at h
  | some s' => exact ⟨s', run_of_moves hmoves, by simpa [movesTo, hmoves] using h⟩

/-- `f` made to stop at the steps that do not meet `C`. -/
def guardMove (C : σ → ε → Prop) [∀ s e, Decidable (C s e)] (f : σ → ε → Option σ) :
    σ → ε → Option σ := fun s e =>
  if C s e then f s e else none

theorem guarded_of_movesTo {C : σ → ε → Prop} [∀ s e, Decidable (C s e)] {f : σ → ε → Option σ}
    {s : σ} {l : List ε} {P : σ → Bool} (h : movesTo (guardMove C f) s l P = true) :
    ∃ s', Run (Guarded C (MovesOf f)) s (l.map (·, ())) s' ∧ P s' = true := by
  obtain ⟨s', hrun, hP⟩ := run_of_movesTo h
  refine ⟨s', hrun.mono fun s e _ s' hstep => ?_, hP⟩
  have hsome : guardMove C f s e = some s' := hstep
  unfold guardMove at hsome
  split at hsome
  · exact ⟨‹_›, hsome⟩
  · cases hsome

/-! ## A loop over independent parts -/

section Sweep

variable {ι α : Type*} {view : σ → ι → α} {body : σ → ι → σ} {f : ι → α → α} {is : List ι}

/-- The turn for index `i` of a loop does `f i` to the part that is `i`'s, and
    leaves the others. -/
structure Sweep (view : σ → ι → α) (body : σ → ι → σ) (f : ι → α → α) : Prop where
  self : ∀ s i, view (body s i) i = f i (view s i)
  other : ∀ s i j, j ≠ i → view (body s i) j = view s j

/-- A loop leaves the part of an index that it does not come to. -/
theorem Sweep.foldl_of_notMem (h : Sweep view body f) {j : ι} (hj : j ∉ is) (s : σ) :
    view (is.foldl body s) j = view s j := by
  induction is generalizing s with
  | nil => rfl
  | cons i is ih =>
      obtain ⟨hne, hj⟩ := not_or.mp (List.mem_cons.not.mp hj)
      rw [List.foldl_cons, ih hj, h.other s i j hne]

/-- Of an index that it comes to once, it does that index' turn. -/
theorem Sweep.foldl_of_mem (h : Sweep view body f) (hnodup : is.Nodup) {j : ι} (hj : j ∈ is)
    (s : σ) : view (is.foldl body s) j = f j (view s j) := by
  induction is generalizing s with
  | nil => cases hj
  | cons i is ih =>
      rw [List.nodup_cons] at hnodup
      rw [List.foldl_cons]
      rcases List.mem_cons.mp hj with rfl | hj
      · rw [h.foldl_of_notMem hnodup.1, h.self]
      · rw [ih hnodup.2 hj, h.other s i j (ne_of_mem_of_not_mem hj hnodup.1)]

end Sweep

/-! ## Ghost state -/

/-- `f` with a ghost component that `g` updates along its steps and that `f`
    never looks at. -/
def withGhost (f : σ → ε → Except χ (σ × ο)) (g : γ → σ → ε → ο → γ) :
    σ × γ → ε → Except χ ((σ × γ) × ο) := fun p e =>
  match f p.1 e with
  | .error x => .error x
  | .ok (s', o) => .ok ((s', g p.2 p.1 e o), o)

theorem withGhost_ok {f : σ → ε → Except χ (σ × ο)} {g : γ → σ → ε → ο → γ} {p p' : σ × γ} {e : ε}
    {o : ο} : withGhost f g p e = .ok (p', o) ↔ f p.1 e = .ok (p'.1, o) ∧ p'.2 = g p.2 p.1 e o := by
  obtain ⟨s', y⟩ := p'
  unfold withGhost
  cases f p.1 e with
  | error x => simp
  | ok r =>
      simp only [Except.ok.injEq, Prod.mk.injEq]
      constructor
      · rintro ⟨⟨rfl, rfl⟩, rfl⟩
        exact ⟨rfl, rfl⟩
      · rintro ⟨rfl, rfl⟩
        exact ⟨⟨rfl, rfl⟩, rfl⟩

/-- Every run has its ghost. -/
theorem exists_ghost {f : σ → ε → Except χ (σ × ο)} {C : σ → ε → Prop} {s₀ s : σ}
    {hist : List (ε × ο)} (g : γ → σ → ε → ο → γ) (y₀ : γ)
    (hrun : Run (Guarded C (StepsOf f)) s₀ hist s) :
    ∃ y, Run (Guarded (fun p e => C p.1 e) (StepsOf (withGhost f g))) (s₀, y₀) hist (s, y) := by
  induction hrun with
  | start => exact ⟨y₀, .start⟩
  | @step hist s e o s' _ hR ih =>
      obtain ⟨y, hrun⟩ := ih
      exact ⟨g y s e o, hrun.step ⟨hR.1, withGhost_ok.mpr ⟨hR.2, rfl⟩⟩⟩

end LinuxLearning.Lib
