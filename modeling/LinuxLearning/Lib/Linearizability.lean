/-
  LinuxLearning.Lib.Linearizability

  Atomic objects.  A thread calls, at one later moment its operation takes
  effect, and later still it gets the answer that was fixed at that moment.  A
  concurrent program is linearizable if the calls and answers of each of its
  runs are those of a run of the atomic object.  `exists_atomic_run` is the
  rule for showing it: a view of the program's runs as states of the atomic
  object under which each step of the program is one step of the object that
  looks the same from outside, or no step.
-/

import Mathlib.Logic.Function.Basic
import LinuxLearning.Lib.Transition

namespace LinuxLearning.Lib

variable {σ τ ι ρ : Type*}

/-- Where a thread is with its call, as seen from outside. -/
inductive Status (ι ρ : Type*) where
  | idle
  /-- It has called, and the operation has not taken effect. -/
  | called (i : ι)
  /-- The operation has taken effect, and the answer is fixed. -/
  | answered (r : ρ)
deriving DecidableEq, Repr

/-- A shared value and the calls under way on it. -/
@[ext]
structure Atomic (σ τ ι ρ : Type*) where
  value : σ
  status : τ → Status ι ρ

/-- A value that nobody is using. -/
def Atomic.start (v : σ) : Atomic σ τ ι ρ where
  value := v
  status := fun _ => .idle

/-- What can happen to an atomic object. -/
inductive AtomicEvent (τ ι ρ : Type*) where
  | call (t : τ) (i : ι)
  | act (t : τ) (i : ι) (r : ρ)
  | ret (t : τ) (r : ρ)

/-- What is seen from outside: calls and answers. -/
abbrev External (τ ι ρ : Type*) := τ × (ι ⊕ ρ)

def AtomicEvent.external : AtomicEvent τ ι ρ → Option (External τ ι ρ)
  | .call t i => some (t, .inl i)
  | .act _ _ _ => none
  | .ret t r => some (t, .inr r)

/-- `Spec status v t i r v'`: with the threads at `status` and the value `v`,
    operation `i` of thread `t` may answer `r` and leave `v'`. -/
abbrev Spec (σ τ ι ρ : Type*) := (τ → Status ι ρ) → σ → τ → ι → ρ → σ → Prop

/-- The steps of the atomic object of a specification. -/
inductive AtomicStep [DecidableEq τ] (spec : Spec σ τ ι ρ) :
    StepRel (Atomic σ τ ι ρ) (AtomicEvent τ ι ρ) Unit
  | call {a : Atomic σ τ ι ρ} {t : τ} {i : ι} : a.status t = .idle →
      AtomicStep spec a (.call t i) () ⟨a.value, Function.update a.status t (.called i)⟩
  | act {a : Atomic σ τ ι ρ} {t : τ} {i : ι} {r : ρ} {v : σ} : a.status t = .called i →
      spec a.status a.value t i r v →
      AtomicStep spec a (.act t i r) () ⟨v, Function.update a.status t (.answered r)⟩
  | ret {a : Atomic σ τ ι ρ} {t : τ} {r : ρ} : a.status t = .answered r →
      AtomicStep spec a (.ret t r) () ⟨a.value, Function.update a.status t .idle⟩

/-- The calls and answers of a history. -/
def trace {ε ο : Type*} (see : ε × ο → Option (External τ ι ρ)) (hist : List (ε × ο)) :
    List (External τ ι ρ) :=
  hist.filterMap see

theorem trace_snoc {ε ο : Type*} (see : ε × ο → Option (External τ ι ρ)) (hist : List (ε × ο))
    (en : ε × ο) : trace see (hist ++ [en]) = trace see hist ++ (see en).toList := by
  rw [trace, trace, List.filterMap_append]
  cases h : see en <;> simp [h]

section

variable [DecidableEq τ] {spec : Spec σ τ ι ρ} {ω ε ο : Type*} {R : StepRel ω ε ο}
  {see : ε × ο → Option (External τ ι ρ)}

/-- A step of the program that the atomic object makes too, or does not
    notice. -/
def Matches (spec : Spec σ τ ι ρ) (a : Atomic σ τ ι ρ) (seen : Option (External τ ι ρ))
    (a' : Atomic σ τ ι ρ) : Prop :=
  (seen = none ∧ a' = a) ∨ ∃ e, AtomicStep spec a e () a' ∧ e.external = seen

namespace Matches

variable {a a' : Atomic σ τ ι ρ} {t : τ}

/-- The object does not notice: the status that was written was there. -/
theorem silent {status : Status ι ρ} (ha : a' = ⟨a.value, Function.update a.status t status⟩)
    (hstatus : a.status t = status) : Matches spec a none a' := by
  refine .inl ⟨rfl, ?_⟩
  rw [ha, ← hstatus, Function.update_eq_self]

theorem call {i : ι} (ha : a' = ⟨a.value, Function.update a.status t (.called i)⟩)
    (hstatus : a.status t = .idle) : Matches spec a (some (t, .inl i)) a' :=
  .inr ⟨.call t i, ha ▸ .call hstatus, rfl⟩

theorem act {i : ι} {r : ρ} {v : σ} (ha : a' = ⟨v, Function.update a.status t (.answered r)⟩)
    (hstatus : a.status t = .called i) (hspec : spec a.status a.value t i r v) :
    Matches spec a none a' :=
  .inr ⟨.act t i r, ha ▸ .act hstatus hspec, rfl⟩

theorem ret {r : ρ} (ha : a' = ⟨a.value, Function.update a.status t .idle⟩)
    (hstatus : a.status t = .answered r) : Matches spec a (some (t, .inr r)) a' :=
  .inr ⟨.ret t r, ha ▸ .ret hstatus, rfl⟩

end Matches

/-- Linearizability by a view: where every step of a run is matched, the run
    has a run of the atomic object with the same calls and answers.  `P` is
    what is assumed about the history. -/
theorem exists_atomic_run {P : List (ε × ο) → ε × ο → Prop} {s₀ s : ω} {hist : List (ε × ο)}
    (view : List (ε × ο) → ω → Atomic σ τ ι ρ)
    (hstep : ∀ hist s e o s', Run R s₀ hist s → AtEveryEntry P (hist ++ [(e, o)]) → R s e o s' →
      Matches spec (view hist s) (see (e, o)) (view (hist ++ [(e, o)]) s'))
    (hrun : Run R s₀ hist s) (hP : AtEveryEntry P hist) :
    ∃ acts, Run (AtomicStep spec) (view [] s₀) acts (view hist s) ∧
      trace (fun en => en.1.external) acts = trace see hist := by
  induction hrun with
  | start => exact ⟨[], .start, rfl⟩
  | @step hist s e o s' hrun hR ih =>
      obtain ⟨acts, habs, htrace⟩ := ih (atEveryEntry_snoc.mp hP).1
      rcases hstep hist s e o s' hrun hP hR with ⟨hsee, hview⟩ | ⟨x, hx, hsee⟩
      · refine ⟨acts, hview ▸ habs, ?_⟩
        rw [htrace, trace_snoc, hsee, Option.toList_none, List.append_nil]
      · refine ⟨acts ++ [(x, ())], habs.step hx, ?_⟩
        rw [trace_snoc, trace_snoc, htrace, ← hsee]

/-! ## Calls that do not overlap -/

/-- The thread whose call is under way, after one more call or answer; `none`
    if calls overlap. -/
def serialNext : Option τ → External τ ι ρ → Option (Option τ)
  | none, (t, .inl _) => some (some t)
  | some t, (u, .inr _) => if t = u then some none else none
  | _, _ => none

/-- The thread whose call is under way at the end. -/
def pending (tr : List (External τ ι ρ)) : Option (Option τ) := tr.foldlM serialNext none

/-- Each call is answered before the next is made. -/
def Serial (tr : List (External τ ι ρ)) : Prop := (pending tr).isSome = true

instance (tr : List (External τ ι ρ)) : Decidable (Serial tr) :=
  inferInstanceAs (Decidable (_ = true))

theorem pending_snoc (tr : List (External τ ι ρ)) (x : External τ ι ρ) :
    pending (tr ++ [x]) = (pending tr).bind fun o => serialNext o x := by
  rw [pending, List.foldlM_append]
  simp [pending]

theorem serial_snoc {tr : List (External τ ι ρ)} {x : External τ ι ρ} (h : Serial (tr ++ [x])) :
    ∃ o o', pending tr = some o ∧ serialNext o x = some o' ∧ pending (tr ++ [x]) = some o' := by
  rw [Serial, pending_snoc] at h
  obtain ⟨o', ho'⟩ := Option.isSome_iff_exists.mp h
  obtain ⟨o, ho, hnext⟩ := Option.bind_eq_some_iff.mp ho'
  exact ⟨o, o', ho, hnext, by rw [pending_snoc, ho']⟩

/-- A serial history is serial from its start on. -/
theorem serial_of_trace_snoc {ε ο : Type*} {see : ε × ο → Option (External τ ι ρ)}
    {hist : List (ε × ο)} {en : ε × ο} (h : Serial (trace see (hist ++ [en]))) :
    Serial (trace see hist) := by
  rw [trace_snoc] at h
  cases hsee : see en with
  | none => rwa [hsee, Option.toList_none, List.append_nil] at h
  | some x =>
      rw [hsee, Option.toList_some] at h
      obtain ⟨o, -, hpend, -⟩ := serial_snoc h
      rw [Serial, hpend]
      rfl

/-- A run of a sequential specification: each call with its answer. -/
inductive Sequential (seq : σ → ι → ρ → σ → Prop) (v : σ) : List (External τ ι ρ) → σ → Prop
  | nil : Sequential seq v [] v
  | snoc {tr : List (External τ ι ρ)} {w w' : σ} (t : τ) {i : ι} {r : ρ} :
      Sequential seq v tr w → seq w i r w' →
      Sequential seq v (tr ++ [(t, .inl i), (t, .inr r)]) w'

/-- Where a serial run is: between calls, or in the one call under way, before
    or after it takes effect. -/
inductive SerialState (seq : σ → ι → ρ → σ → Prop) (v : σ) (a : Atomic σ τ ι ρ) :
    List (External τ ι ρ) → Option τ → Prop
  | idle {tr : List (External τ ι ρ)} : Sequential seq v tr a.value →
      (∀ u, a.status u = .idle) → SerialState seq v a tr none
  | called {tr : List (External τ ι ρ)} {t : τ} {i : ι} : Sequential seq v tr a.value →
      a.status t = .called i → (∀ u, u ≠ t → a.status u = .idle) →
      SerialState seq v a (tr ++ [(t, .inl i)]) (some t)
  | answered {tr : List (External τ ι ρ)} {t : τ} {i : ι} {r : ρ} {w : σ} :
      Sequential seq v tr w → seq w i r a.value → a.status t = .answered r →
      (∀ u, u ≠ t → a.status u = .idle) → SerialState seq v a (tr ++ [(t, .inl i)]) (some t)

/-- Where calls do not overlap, an atomic object runs by its sequential
    specification. -/
theorem serialState_of_run {seq : σ → ι → ρ → σ → Prop} {v : σ}
    {acts : List (AtomicEvent τ ι ρ × Unit)} {a : Atomic σ τ ι ρ}
    (hseq : ∀ status v t i r v', (∀ u, u ≠ t → status u = .idle) → spec status v t i r v' →
      seq v i r v')
    (hrun : Run (AtomicStep spec) (Atomic.start v) acts a)
    (hserial : Serial (trace (fun en => en.1.external) acts)) :
    ∃ o, pending (trace (fun en => en.1.external) acts) = some o ∧
      SerialState seq v a (trace (fun en => en.1.external) acts) o := by
  induction hrun with
  | start => exact ⟨none, rfl, .idle .nil fun _ => rfl⟩
  | @step acts a e o a' _ hstep ih =>
      rw [trace_snoc] at hserial ⊢
      generalize trace (fun en => en.1.external) acts = tr at ih hserial
      cases hstep with
      | @call _ t i hidle =>
          change Serial (tr ++ [(t, .inl i)]) at hserial
          obtain ⟨o, o', hpend, hnext, hpend'⟩ := serial_snoc hserial
          obtain ⟨o₁, hpend₁, hstate⟩ := ih (by rw [Serial, hpend]; rfl)
          obtain rfl : o = o₁ := Option.some.inj (hpend.symm.trans hpend₁)
          refine ⟨o', hpend', ?_⟩
          cases hstate with
          | idle hdone hall =>
              obtain rfl : some t = o' := by simpa [serialNext] using hnext
              exact .called hdone (by simp) fun u hu => by simp [hu, hall u]
          | called | answered => simp [serialNext] at hnext
      | @act _ t i r w hcalled hspec =>
          change Serial (tr ++ []) at hserial
          rw [List.append_nil] at hserial
          obtain ⟨o, hpend, hstate⟩ := ih hserial
          change ∃ o, pending (tr ++ []) = some o ∧ SerialState _ _ _ (tr ++ []) o
          rw [List.append_nil]
          refine ⟨o, hpend, ?_⟩
          cases hstate with
          | idle hdone hall => rw [hall t] at hcalled; cases hcalled
          | @called _ u j hdone hu hothers =>
              by_cases htu : t = u
              · subst htu
                obtain rfl : j = i := by simpa [hu] using hcalled
                exact .answered hdone (hseq _ _ _ _ _ _ hothers hspec) (by simp)
                  fun v hv => by simp [hv, hothers v hv]
              · rw [hothers t htu] at hcalled; cases hcalled
          | @answered _ u j r' w hdone hw hu hothers =>
              by_cases htu : t = u
              · subst htu; rw [hu] at hcalled; cases hcalled
              · rw [hothers t htu] at hcalled; cases hcalled
      | @ret _ t r hanswered =>
          change Serial (tr ++ [(t, .inr r)]) at hserial
          obtain ⟨o, o', hpend, hnext, hpend'⟩ := serial_snoc hserial
          obtain ⟨o₁, hpend₁, hstate⟩ := ih (by rw [Serial, hpend]; rfl)
          obtain rfl : o = o₁ := Option.some.inj (hpend.symm.trans hpend₁)
          refine ⟨o', hpend', ?_⟩
          cases hstate with
          | idle hdone hall => rw [hall t] at hanswered; cases hanswered
          | @called _ u j hdone hu hothers =>
              by_cases htu : t = u
              · subst htu; rw [hu] at hanswered; cases hanswered
              · rw [hothers t htu] at hanswered; cases hanswered
          | @answered tr u j r' w hdone hw hu hothers =>
              by_cases htu : t = u
              · subst htu
                obtain rfl : r' = r := by simpa [hu] using hanswered
                obtain rfl : none = o' := by simpa [serialNext] using hnext
                change SerialState _ _ _ (tr ++ [(t, .inl j)] ++ [(t, .inr r')]) _
                rw [List.append_assoc]
                refine .idle (.snoc t hdone hw) fun v => ?_
                by_cases hv : v = t
                · simp [hv]
                · simp [hv, hothers v hv]
              · rw [hothers t htu] at hanswered; cases hanswered

/-- What the calls and answers of a serial run are: those of a run of the
    sequential specification, and perhaps a last call without its answer. -/
theorem sequential_of_serial {seq : σ → ι → ρ → σ → Prop} {v : σ}
    {acts : List (AtomicEvent τ ι ρ × Unit)} {a : Atomic σ τ ι ρ}
    (hseq : ∀ status v t i r v', (∀ u, u ≠ t → status u = .idle) → spec status v t i r v' →
      seq v i r v')
    (hrun : Run (AtomicStep spec) (Atomic.start v) acts a)
    (hserial : Serial (trace (fun en => en.1.external) acts)) :
    ∃ done w, Sequential seq v done w ∧ (trace (fun en => en.1.external) acts = done ∨
      ∃ t i, trace (fun en => en.1.external) acts = done ++ [(t, .inl i)]) := by
  obtain ⟨o, -, hstate⟩ := serialState_of_run hseq hrun hserial
  generalize trace (fun en => en.1.external) acts = tr at hstate
  cases hstate with
  | idle hdone _ => exact ⟨_, _, hdone, .inl rfl⟩
  | called hdone _ _ => exact ⟨_, _, hdone, .inr ⟨_, _, rfl⟩⟩
  | answered hdone _ _ _ => exact ⟨_, _, hdone, .inr ⟨_, _, rfl⟩⟩

end

end LinuxLearning.Lib
