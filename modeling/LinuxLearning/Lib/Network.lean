/-
  LinuxLearning.Lib.Network

  Machines on a network that loses and reorders messages, and what runs of
  the whole keep.

  The machines are all of one kind: a `Machine` acts on its own, or takes a
  message, and either may put messages on the wire.  The wire gives any of
  its messages to any machine, each at most once, or loses it; strangers may
  put messages on it too.

  Two rules carry properties of one machine over to the network.  By
  `Network.invariant`, states and messages stay good if every machine stays
  good on good messages and puts only good ones on the wire.  By
  `Network.conserved`, nothing is taken out of the network that was not put
  in, if no machine hands out more than it holds or takes.
-/

import Mathlib.Algebra.BigOperators.Fin
import Mathlib.Algebra.Order.BigOperators.Group.Finset
import Mathlib.Tactic.Abel
import LinuxLearning.Lib.Transition

namespace LinuxLearning.Lib

/-! ## Tallies of a history -/

section Tally

variable {σ ε ο M : Type*} [AddCommMonoid M]

/-- The entries of a history, each for what it is worth, summed up. -/
def tally (v : ε × ο → M) (hist : List (ε × ο)) : M := (hist.map v).sum

@[simp] theorem tally_nil (v : ε × ο → M) : tally v [] = 0 := rfl

@[simp] theorem tally_snoc (v : ε × ο → M) (hist : List (ε × ο)) (en : ε × ο) :
    tally v (hist ++ [en]) = tally v hist + v en := by
  simp [tally]

/-- Where no step hands out more than it finds or gets, no run does. -/
theorem Run.conserved [PartialOrder M] [IsOrderedAddMonoid M] {R : StepRel σ ε ο} {s₀ s : σ}
    {hist : List (ε × ο)} {I : σ → Prop} {held : σ → M} {made gone : ε × ο → M} (hinit : I s₀)
    (hstep : ∀ s e o s', I s → R s e o s' →
      I s' ∧ held s' + gone (e, o) ≤ held s + made (e, o)) (hrun : Run R s₀ hist s) :
    I s ∧ held s + tally gone hist ≤ held s₀ + tally made hist := by
  induction hrun with
  | start => exact ⟨hinit, le_rfl⟩
  | @step hist s e o s' _ hR ih =>
      obtain ⟨hI, hle⟩ := ih
      obtain ⟨hI', hle'⟩ := hstep s e o s' hI hR
      refine ⟨hI', ?_⟩
      rw [tally_snoc, tally_snoc]
      calc held s' + (tally gone hist + gone (e, o))
          = tally gone hist + (held s' + gone (e, o)) := by
            rw [add_left_comm]
        _ ≤ tally gone hist + (held s + made (e, o)) := add_le_add_right hle' _
        _ = (held s + tally gone hist) + made (e, o) := by
            rw [← add_assoc, add_comm (tally gone hist)]
        _ ≤ (held s₀ + tally made hist) + made (e, o) := add_le_add_left hle _
        _ = held s₀ + (tally made hist + made (e, o)) := add_assoc ..

end Tally

/-! ## Machines and networks -/

/-- A kind of machine: how it acts on its own, how it takes a message, with
    what the environment decides on the way, and which messages a step put
    on the wire. -/
structure Machine (σ α η μ ο χ : Type*) where
  act : σ → α → Except χ (σ × ο)
  receive : σ → η → μ → Except χ (σ × ο)
  emits : ο → List μ

/-- The machines of a network, and the messages in flight. -/
structure Network (ι σ μ : Type*) where
  machine : ι → σ
  wire : List μ

/-- What can happen on a network. -/
inductive NetEvent (ι α η μ : Type*) where
  | act (i : ι) (a : α)
  /-- The message at place `k` of the wire reaches machine `i`. -/
  | deliver (i : ι) (k : Nat) (x : η)
  | lose (k : Nat)
  /-- A stranger puts a message on the wire. -/
  | inject (m : μ)

variable {ι σ α η μ ο χ M : Type*} [DecidableEq ι]

/-- One step of the network; it reports what the machine's step reported. -/
def netStep (K : Machine σ α η μ ο χ) (n : Network ι σ μ) :
    NetEvent ι α η μ → Except (Option χ) (Network ι σ μ × Option ο)
  | .act i a =>
      match K.act (n.machine i) a with
      | .error x => .error (some x)
      | .ok (s', o) =>
          .ok ({ machine := Function.update n.machine i s', wire := n.wire ++ K.emits o }, some o)
  | .deliver i k x =>
      match n.wire[k]? with
      | none => .error none
      | some m =>
          match K.receive (n.machine i) x m with
          | .error x => .error (some x)
          | .ok (s', o) =>
              .ok ({ machine := Function.update n.machine i s'
                     wire := n.wire.eraseIdx k ++ K.emits o }, some o)
  | .lose k => .ok ({ n with wire := n.wire.eraseIdx k }, none)
  | .inject m => .ok ({ n with wire := n.wire ++ [m] }, none)

/-- Events of a network with what they reported, oldest first. -/
abbrev NetHistory (ι α η μ ο : Type*) := List (NetEvent ι α η μ × Option ο)

/-- What one step of the network can be. -/
inductive NetCases (K : Machine σ α η μ ο χ) (n : Network ι σ μ) :
    NetEvent ι α η μ → Option ο → Network ι σ μ → Prop where
  | act {i : ι} {a : α} {s' : σ} {o : ο} : K.act (n.machine i) a = .ok (s', o) →
      NetCases K n (.act i a) (some o)
        { machine := Function.update n.machine i s', wire := n.wire ++ K.emits o }
  | deliver {i : ι} {k : Nat} {x : η} {m : μ} {s' : σ} {o : ο} : n.wire[k]? = some m →
      K.receive (n.machine i) x m = .ok (s', o) →
      NetCases K n (.deliver i k x) (some o)
        { machine := Function.update n.machine i s', wire := n.wire.eraseIdx k ++ K.emits o }
  | lose (k : Nat) : NetCases K n (.lose k) none { n with wire := n.wire.eraseIdx k }
  | inject (m : μ) : NetCases K n (.inject m) none { n with wire := n.wire ++ [m] }

variable {K : Machine σ α η μ ο χ} {n n' n₀ : Network ι σ μ} {e : NetEvent ι α η μ} {r : Option ο}

theorem netStep_cases (h : netStep K n e = .ok (n', r)) : NetCases K n e r n' := by
  cases e with
  | act i a =>
      simp only [netStep] at h
      split at h
      · cases h
      · rename_i heq
        obtain ⟨rfl, rfl⟩ := Prod.mk.inj (Except.ok.inj h)
        exact .act heq
  | deliver i k x =>
      simp only [netStep] at h
      split at h
      · cases h
      · rename_i hm
        split at h
        · cases h
        · rename_i heq
          obtain ⟨rfl, rfl⟩ := Prod.mk.inj (Except.ok.inj h)
          exact .deliver hm heq
  | lose k =>
      obtain ⟨rfl, rfl⟩ := Prod.mk.inj (Except.ok.inj h)
      exact .lose k
  | inject m =>
      obtain ⟨rfl, rfl⟩ := Prod.mk.inj (Except.ok.inj h)
      exact .inject m

/-- The runs of a network whose steps all meet `C`. -/
abbrev NetRun (K : Machine σ α η μ ο χ) (C : Network ι σ μ → NetEvent ι α η μ → Prop)
    (n₀ : Network ι σ μ) (hist : NetHistory ι α η μ ο) (n : Network ι σ μ) : Prop :=
  Run (Guarded C (StepsOf (netStep K))) n₀ hist n

/-! ## Invariance -/

/-- All machines are in good states, and all messages in flight are good. -/
def Network.Good (n : Network ι σ μ) (I : σ → Prop) (J : μ → Prop) : Prop :=
  (∀ i, I (n.machine i)) ∧ ∀ m ∈ n.wire, J m

theorem Network.good_update {I : σ → Prop} {J : μ → Prop} {i : ι} {s' : σ} {wire out : List μ}
    (hgood : n.Good I J) (hs : I s') (hwire : ∀ m ∈ wire, m ∈ n.wire) (hout : ∀ m ∈ out, J m) :
    Network.Good { machine := Function.update n.machine i s', wire := wire ++ out } I J := by
  refine ⟨(Function.forall_update_iff _ fun _ => I).mpr ⟨hs, fun j _ => hgood.1 j⟩, fun m hm => ?_⟩
  rcases List.mem_append.mp hm with hm | hm
  · exact hgood.2 m (hwire m hm)
  · exact hout m hm

/-- Machines that stay good on good messages, and put only good ones on the
    wire, stay good as long as strangers send only good ones too. -/
theorem Network.invariant {C : Network ι σ μ → NetEvent ι α η μ → Prop} {I : σ → Prop}
    {J : μ → Prop} {hist : NetHistory ι α η μ ο} (hinit : n₀.Good I J)
    (hact : ∀ n i a s' o, n.Good I J → C n (.act i a) → K.act (n.machine i) a = .ok (s', o) →
      I s' ∧ ∀ m ∈ K.emits o, J m)
    (hreceive : ∀ s x m s' o, I s → J m → K.receive s x m = .ok (s', o) →
      I s' ∧ ∀ m ∈ K.emits o, J m)
    (hinject : ∀ n m, C n (.inject m) → J m) (hrun : NetRun K C n₀ hist n) : n.Good I J := by
  induction hrun with
  | start => exact hinit
  | @step hist n e r n' _ hR ih =>
      obtain ⟨hC, hstep⟩ := hR
      cases netStep_cases hstep with
      | act heq =>
          obtain ⟨hs, hout⟩ := hact _ _ _ _ _ ih hC heq
          exact Network.good_update ih hs (fun m hm => hm) hout
      | deliver hm heq =>
          obtain ⟨hs, hout⟩ := hreceive _ _ _ _ _ (ih.1 _) (ih.2 _ (List.mem_of_getElem? hm)) heq
          exact Network.good_update ih hs (fun m hm => List.mem_of_mem_eraseIdx hm) hout
      | lose k => exact ⟨ih.1, fun m hm => ih.2 m (List.mem_of_mem_eraseIdx hm)⟩
      | inject m =>
          refine ⟨ih.1, fun m' hm' => ?_⟩
          rcases List.mem_append.mp hm' with hold | hnew
          · exact ih.2 m' hold
          · rw [List.mem_singleton.mp hnew]
            exact hinject _ _ hC

/-! ## Conservation -/

/-- What the machines hold, and what is in flight. -/
def Network.total [Fintype ι] [AddCommMonoid M] (n : Network ι σ μ) (held : σ → M)
    (worth : μ → M) : M :=
  ∑ i, held (n.machine i) + (n.wire.map worth).sum

/-- What a step of the network gets: a message from a stranger, or what the
    machine's step got. -/
def netMade [AddCommMonoid M] (worth : μ → M) (made : ο → M) : NetEvent ι α η μ × Option ο → M
  | (.inject m, _) => worth m
  | (_, some o) => made o
  | (_, none) => 0

/-- What it hands out. -/
def netGone [AddCommMonoid M] (gone : ο → M) : NetEvent ι α η μ × Option ο → M
  | (_, some o) => gone o
  | (_, none) => 0

theorem sum_eraseIdx_add [AddCommMonoid M] {wire : List μ} {k : Nat} {m : μ} (worth : μ → M)
    (h : wire[k]? = some m) :
    ((wire.eraseIdx k).map worth).sum + worth m = (wire.map worth).sum := by
  induction wire generalizing k with
  | nil => simp at h
  | cons x rest ih =>
      cases k with
      | zero =>
          obtain rfl : x = m := by simpa using h
          simp [add_comm]
      | succ k =>
          have hrest := ih (by simpa using h)
          simp only [List.eraseIdx_cons_succ, List.map_cons, List.sum_cons]
          rw [add_assoc, hrest]

section Conservation

variable [Fintype ι] [AddCommMonoid M] [PartialOrder M] [IsOrderedAddMonoid M] {held : σ → M}
  {worth : μ → M} {made gone : ο → M}

/-- The step of one machine leaves the others alone. -/
theorem held_update_le {machine : ι → σ} {i : ι} {s' : σ} {out got : M}
    (h : held s' + out ≤ held (machine i) + got) :
    ∑ j, held (Function.update machine i s' j) + out ≤ ∑ j, held (machine j) + got := by
  have hothers : ∑ j ∈ Finset.univ.erase i, held (Function.update machine i s' j) =
      ∑ j ∈ Finset.univ.erase i, held (machine j) := by
    apply Finset.sum_congr rfl
    intro j hj
    rw [Function.update_of_ne (Finset.ne_of_mem_erase hj)]
  have hafter := Finset.add_sum_erase _ (fun j => held (Function.update machine i s' j))
    (Finset.mem_univ i)
  have hbefore := Finset.add_sum_erase _ (fun j => held (machine j)) (Finset.mem_univ i)
  rw [hothers, Function.update_self] at hafter
  rw [← hafter, ← hbefore, add_right_comm, add_right_comm _ _ got]
  exact add_le_add_left h _

/-- A message that is lost is worth nothing less than it was. -/
theorem sum_eraseIdx_le (hworth : ∀ m, 0 ≤ worth m) (wire : List μ) (k : Nat) :
    ((wire.eraseIdx k).map worth).sum ≤ (wire.map worth).sum := by
  cases hm : wire[k]? with
  | none => rw [List.eraseIdx_of_length_le (List.getElem?_eq_none_iff.mp hm)]
  | some m =>
      rw [← sum_eraseIdx_add worth hm]
      exact le_add_of_nonneg_right (hworth m)

/-- If no machine hands out, keeps and sends more than it held and got, the
    network hands out no more than it got.  `hreceive` counts the message
    among what the machine got. -/
theorem Network.conserved {C : Network ι σ μ → NetEvent ι α η μ → Prop} {I : σ → Prop}
    {hist : NetHistory ι α η μ ο} (hworth : ∀ m, 0 ≤ worth m) (hinit : ∀ i, I (n₀.machine i))
    (hact : ∀ n i a s' o, (∀ j, I (n.machine j)) → C n (.act i a) →
      K.act (n.machine i) a = .ok (s', o) →
      I s' ∧ held s' + (((K.emits o).map worth).sum + gone o) ≤ held (n.machine i) + made o)
    (hreceive : ∀ s x m s' o, I s → K.receive s x m = .ok (s', o) →
      I s' ∧ held s' + (((K.emits o).map worth).sum + gone o) ≤ held s + (worth m + made o))
    (hrun : NetRun K C n₀ hist n) :
    n.total held worth + tally (netGone gone) hist ≤
      n₀.total held worth + tally (netMade worth made) hist := by
  have hledger : ∀ n e r n', (∀ i, I (n.machine i)) → Guarded C (StepsOf (netStep K)) n e r n' →
      (∀ i, I (n'.machine i)) ∧ n'.total held worth + netGone gone (e, r) ≤
        n.total held worth + netMade worth made (e, r) := by
    rintro n e r n' hI ⟨hC, hstep⟩
    cases netStep_cases hstep with
    | @act i a s' o heq =>
        obtain ⟨hs, hle⟩ := hact _ _ _ _ _ hI hC heq
        refine ⟨(Function.forall_update_iff _ _).mpr ⟨hs, fun j _ => hI j⟩, ?_⟩
        have hsum := held_update_le hle
        simp only [Network.total, netGone, netMade, List.map_append, List.sum_append]
        rw [← add_assoc] at hsum
        calc ∑ j, held (Function.update n.machine i s' j) +
              ((n.wire.map worth).sum + ((K.emits o).map worth).sum) + gone o
            = ∑ j, held (Function.update n.machine i s' j) + ((K.emits o).map worth).sum + gone o +
              (n.wire.map worth).sum := by
              abel
          _ ≤ ∑ j, held (n.machine j) + made o + (n.wire.map worth).sum := add_le_add_left hsum _
          _ = ∑ j, held (n.machine j) + (n.wire.map worth).sum + made o := add_right_comm ..
    | @deliver i k x m s' o hm heq =>
        obtain ⟨hs, hle⟩ := hreceive _ _ _ _ _ (hI i) heq
        refine ⟨(Function.forall_update_iff _ _).mpr ⟨hs, fun j _ => hI j⟩, ?_⟩
        have hsum := held_update_le hle
        simp only [Network.total, netGone, netMade, List.map_append, List.sum_append]
        rw [← add_assoc] at hsum
        rw [← sum_eraseIdx_add worth hm]
        calc ∑ j, held (Function.update n.machine i s' j) +
              (((n.wire.eraseIdx k).map worth).sum + ((K.emits o).map worth).sum) + gone o
            = ∑ j, held (Function.update n.machine i s' j) + ((K.emits o).map worth).sum + gone o +
              ((n.wire.eraseIdx k).map worth).sum := by
              abel
          _ ≤ ∑ j, held (n.machine j) + (worth m + made o) + ((n.wire.eraseIdx k).map worth).sum :=
              add_le_add_left hsum _
          _ = ∑ j, held (n.machine j) + (((n.wire.eraseIdx k).map worth).sum + worth m) +
              made o := by
              abel
    | lose k =>
        refine ⟨hI, ?_⟩
        simp only [Network.total, netGone, netMade, add_zero]
        exact add_le_add_right (sum_eraseIdx_le hworth n.wire k) _
    | inject m =>
        refine ⟨hI, ?_⟩
        simp only [Network.total, netGone, netMade, List.map_append, List.sum_append, List.map_cons,
          List.map_nil, List.sum_cons, List.sum_nil, add_zero, ← add_assoc, le_refl]
  exact (Run.conserved hinit hledger hrun).2

end Conservation

end LinuxLearning.Lib
