/-
  LinuxLearning.Counter.Increments

  The threads of `spinlock.c` and of `icon_operation.c`, which count in one
  `int`: with `(*pcount)++` under a spin lock, and with `lock;xaddl`.

  Seen from outside, the increment under the lock happens when the new value is
  written, so that a run of the first program is one of the second.  There,
  what is in the counter is what the threads have added, each as far as it is.
-/

import Mathlib.Algebra.Order.BigOperators.Group.Finset
import Mathlib.Data.Fintype.BigOperators
import LinuxLearning.Lib.Monitor
import LinuxLearning.Lib.Transition

namespace LinuxLearning.Counter

open Lib

variable {τ : Type*} {t u : τ} {rounds : Nat}

/-! ## The threads -/

/-- Where a thread is in the `thread_callback` of `icon_operation.c`, with its
    `i`. -/
inductive XaddPc where
  /-- `while(i++<100000)` -/
  | test (i : Nat)
  /-- `inc(pcount,1);` -/
  | inc (i : Nat)
  | usleep (i : Nat)
  | returned
deriving DecidableEq, Repr

/-- Where a thread is in the `thread_callback` of `spinlock.c`, with its
    `i`. -/
inductive SpinPc where
  /-- `while(i++<100000)` -/
  | test (i : Nat)
  | lock (i : Nat)
  /-- `(*pcount)++`, which reads, … -/
  | load (i : Nat)
  /-- … and writes. -/
  | store (i : Nat) (value : BitVec 32)
  | unlock (i : Nat)
  | usleep (i : Nat)
  | returned
deriving DecidableEq, Repr

/-- The counter and the threads of `icon_operation.c`. -/
structure Xadd (τ : Type*) where
  count : BitVec 32
  pc : τ → XaddPc

/-- The counter, the lock with its holder, and the threads of `spinlock.c`. -/
structure Spin (τ : Type*) where
  count : BitVec 32
  spinlock : Option τ
  pc : τ → SpinPc

/-- What `inc` leaves in the counter, in one step. -/
def inc (count add : BitVec 32) : BitVec 32 := count + add

/-- The next step of the thread `t` of `icon_operation.c`; `rounds` is the
    number in its loop. -/
def xaddStep [DecidableEq τ] (rounds : Nat) (s : Xadd τ) (t : τ) : Option (Xadd τ) :=
  match s.pc t with
  | .test i =>
      let pc := if i < rounds then .inc (i + 1) else .returned
      some { s with pc := Function.update s.pc t pc }
  | .inc i =>
      some { count := inc s.count 1, pc := Function.update s.pc t (.usleep i) }
  | .usleep i => some { s with pc := Function.update s.pc t (.test i) }
  | .returned => none

/-- The next step of the thread `t` of `spinlock.c`. -/
def spinStep [DecidableEq τ] (rounds : Nat) (s : Spin τ) (t : τ) : Option (Spin τ) :=
  match s.pc t with
  | .test i =>
      let pc := if i < rounds then .lock (i + 1) else .returned
      some { s with pc := Function.update s.pc t pc }
  | .lock i =>
      match s.spinlock with
      | none => some { s with spinlock := some t, pc := Function.update s.pc t (.load i) }
      | some _ => none
  | .load i => some { s with pc := Function.update s.pc t (.store i s.count) }
  | .store i value =>
      some { s with count := value + 1, pc := Function.update s.pc t (.unlock i) }
  | .unlock i => some { s with spinlock := none, pc := Function.update s.pc t (.usleep i) }
  | .usleep i => some { s with pc := Function.update s.pc t (.test i) }
  | .returned => none

/-- The threads before their first step. -/
def Xadd.start : Xadd τ := ⟨0, fun _ => .test 0⟩

def Spin.start : Spin τ := ⟨0, none, fun _ => .test 0⟩

/-- The runs of `icon_operation.c`: who makes the next step is open. -/
abbrev XaddRun [DecidableEq τ] (rounds : Nat) (hist : List (τ × Unit)) (s : Xadd τ) : Prop :=
  Run (MovesOf (xaddStep rounds)) .start hist s

/-- The runs of `spinlock.c`; a thread that spins makes no step. -/
abbrev SpinRun [DecidableEq τ] (rounds : Nat) (hist : List (τ × Unit)) (s : Spin τ) : Prop :=
  Run (MovesOf (spinStep rounds)) .start hist s

/-! ## What the threads have added -/

/-- The place is one that the loop comes to. -/
def XaddPc.InLoop (rounds : Nat) : XaddPc → Prop
  | .test i => i ≤ rounds
  | .inc i | .usleep i => 1 ≤ i ∧ i ≤ rounds
  | .returned => True

/-- The increments that a thread has made. -/
def XaddPc.made (rounds : Nat) : XaddPc → Nat
  | .test i | .usleep i => i
  | .inc i => i - 1
  | .returned => rounds

theorem sum_update [Fintype τ] [DecidableEq τ] {α : Type*} (f : α → Nat) (g : τ → α) (t : τ)
    (a : α) : ∑ v, f (Function.update g t a v) + f (g t) = ∑ v, f (g v) + f a := by
  rw [← Finset.add_sum_erase _ _ (Finset.mem_univ t), Function.update_self,
    ← Finset.add_sum_erase _ (fun v => f (g v)) (Finset.mem_univ t)]
  have hrest : ∑ v ∈ Finset.univ.erase t, f (Function.update g t a v) =
      ∑ v ∈ Finset.univ.erase t, f (g v) :=
    Finset.sum_congr rfl fun v hv => by rw [Function.update_of_ne (Finset.ne_of_mem_erase hv)]
  rw [hrest]
  omega

/-- The counter holds what the threads have added. -/
structure Tallied [Fintype τ] (rounds : Nat) (s : Xadd τ) : Prop where
  inLoop : ∀ t, (s.pc t).InLoop rounds
  count : s.count = BitVec.ofNat 32 (∑ t, (s.pc t).made rounds)

/-- No thread adds more than its rounds. -/
theorem Tallied.sum_le [Fintype τ] {s : Xadd τ} (h : Tallied rounds s) :
    ∑ t, (s.pc t).made rounds ≤ Fintype.card τ * rounds := by
  rw [← Nat.nsmul_eq_mul, ← Finset.card_univ]
  refine Finset.sum_le_card_nsmul _ _ _ fun t _ => ?_
  have hloop := h.inLoop t
  cases hpc : s.pc t with
  | test i =>
      rw [hpc] at hloop
      exact hloop
  | inc i =>
      rw [hpc] at hloop
      exact Nat.le_trans (Nat.sub_le i 1) hloop.2
  | usleep i =>
      rw [hpc] at hloop
      exact hloop.2
  | returned => exact Nat.le_refl rounds

theorem Tallied.move [Fintype τ] [DecidableEq τ] {s : Xadd τ} {pc : XaddPc} {count : BitVec 32}
    (h : Tallied rounds s) (hpc : pc.InLoop rounds) {n : Nat}
    (hmade : pc.made rounds = (s.pc t).made rounds + n)
    (hcount : count = s.count + BitVec.ofNat 32 n) :
    Tallied rounds { count := count, pc := Function.update s.pc t pc } where
  inLoop u := by
    change (Function.update s.pc t pc u).InLoop rounds
    by_cases hu : u = t
    · subst hu
      rw [Function.update_self]
      exact hpc
    · rw [Function.update_of_ne hu]
      exact h.inLoop u
  count := by
    have hsum := sum_update (XaddPc.made rounds) s.pc t pc
    have hsum' : ∑ v, (Function.update s.pc t pc v).made rounds =
        ∑ v, (s.pc v).made rounds + n := by omega
    rw [hsum', hcount, h.count, BitVec.ofNat_add]

theorem Tallied.step [Fintype τ] [DecidableEq τ] {s s' : Xadd τ} (h : Tallied rounds s)
    (hstep : xaddStep rounds s t = some s') : Tallied rounds s' := by
  have hloop := h.inLoop t
  unfold xaddStep at hstep
  cases hpc : s.pc t with
  | test i =>
      simp only [hpc, Option.some.injEq] at hstep
      rw [hpc] at hloop
      subst hstep
      have hle : i ≤ rounds := hloop
      by_cases hi : i < rounds
      · rw [if_pos hi]
        exact h.move (n := 0) ⟨by omega, hi⟩ (by rw [hpc]; simp [XaddPc.made]) (by simp)
      · rw [if_neg hi]
        exact h.move (n := 0) trivial (by rw [hpc]; simp only [XaddPc.made]; omega) (by simp)
  | inc i =>
      simp only [hpc, Option.some.injEq] at hstep
      rw [hpc] at hloop
      subst hstep
      have hle : 1 ≤ i ∧ i ≤ rounds := hloop
      exact h.move (n := 1) hloop (by rw [hpc]; simp only [XaddPc.made]; omega) rfl
  | usleep i =>
      simp only [hpc, Option.some.injEq] at hstep
      rw [hpc] at hloop
      subst hstep
      exact h.move (n := 0) hloop.2 (by rw [hpc]; rfl) (by simp)
  | returned => simp [hpc] at hstep

theorem Tallied.start [Fintype τ] : Tallied rounds (.start : Xadd τ) where
  inLoop _ := Nat.zero_le rounds
  count := by simp [Xadd.start, XaddPc.made]

/-- What an `int` reads as. -/
theorem toInt_ofNat_of_lt {n : Nat} (h : n < 2 ^ 31) : (BitVec.ofNat 32 n).toInt = n := by
  rw [BitVec.toInt_eq_toNat_of_lt, BitVec.toNat_ofNat, Nat.mod_eq_of_lt (by omega)]
  rw [BitVec.toNat_ofNat, Nat.mod_eq_of_lt (by omega)]
  omega

/-- In every run of `icon_operation.c` no increment is lost. -/
theorem tallied_of_run [Fintype τ] [DecidableEq τ] {hist : List (τ × Unit)} {s : Xadd τ}
    (hrun : XaddRun rounds hist s) : Tallied rounds s :=
  hrun.invariant (P := fun _ s => Tallied rounds s) .start fun _ _ _ _ _ h hstep => h.step hstep

/-! ## The spin lock -/

def SpinPc.stance : SpinPc → Stance
  | .load _ | .store _ _ | .unlock _ => .inside
  | .test _ | .lock _ | .usleep _ | .returned => .outside

def Spin.stance (s : Spin τ) (t : τ) : Stance := (s.pc t).stance

/-- The lock's holder is the one thread inside, and what it read is still in
    the counter. -/
structure SpinInv (s : Spin τ) : Prop where
  guards : Guards s.spinlock s.stance
  read : ∀ t i value, s.pc t = .store i value → value = s.count

/-- The place of a thread as `icon_operation.c` has it: the increment happens
    with the write. -/
def SpinPc.view : SpinPc → XaddPc
  | .test i => .test i
  | .lock i | .load i | .store i _ => .inc i
  | .unlock i | .usleep i => .usleep i
  | .returned => .returned

/-- The program as `icon_operation.c` has it. -/
def Spin.view (s : Spin τ) : Xadd τ := ⟨s.count, fun t => (s.pc t).view⟩

/-- The moves of the thread `t`. -/
inductive SpinMove [DecidableEq τ] (rounds : Nat) (s : Spin τ) (t : τ) : Spin τ → Prop
  | again {i : Nat} : s.pc t = .test i → i < rounds →
      SpinMove rounds s t { s with pc := Function.update s.pc t (.lock (i + 1)) }
  | done {i : Nat} : s.pc t = .test i → rounds ≤ i →
      SpinMove rounds s t { s with pc := Function.update s.pc t .returned }
  | lock {i : Nat} : s.pc t = .lock i → s.spinlock = none →
      SpinMove rounds s t { s with spinlock := some t, pc := Function.update s.pc t (.load i) }
  | load {i : Nat} : s.pc t = .load i →
      SpinMove rounds s t { s with pc := Function.update s.pc t (.store i s.count) }
  | store {i : Nat} {value : BitVec 32} : s.pc t = .store i value →
      SpinMove rounds s t { s with count := value + 1, pc := Function.update s.pc t (.unlock i) }
  | unlock {i : Nat} : s.pc t = .unlock i →
      SpinMove rounds s t { s with spinlock := none, pc := Function.update s.pc t (.usleep i) }
  | usleep {i : Nat} : s.pc t = .usleep i →
      SpinMove rounds s t { s with pc := Function.update s.pc t (.test i) }

theorem spinMove_of_step [DecidableEq τ] {s s' : Spin τ} (h : spinStep rounds s t = some s') :
    SpinMove rounds s t s' := by
  unfold spinStep at h
  cases hpc : s.pc t with
  | test i =>
      simp only [hpc, Option.some.injEq] at h
      subst h
      by_cases hi : i < rounds
      · rw [if_pos hi]
        exact .again hpc hi
      · rw [if_neg hi]
        exact .done hpc (Nat.le_of_not_lt hi)
  | lock i =>
      simp only [hpc] at h
      cases hlock : s.spinlock with
      | none =>
          simp only [hlock, Option.some.injEq] at h
          exact h ▸ .lock hpc hlock
      | some u => simp [hlock] at h
  | load i =>
      simp only [hpc, Option.some.injEq] at h
      exact h ▸ .load hpc
  | store i value =>
      simp only [hpc, Option.some.injEq] at h
      exact h ▸ .store hpc
  | unlock i =>
      simp only [hpc, Option.some.injEq] at h
      exact h ▸ .unlock hpc
  | usleep i =>
      simp only [hpc, Option.some.injEq] at h
      exact h ▸ .usleep hpc
  | returned => simp [hpc] at h

/-- Nobody else is about to write while a thread is inside. -/
theorem SpinInv.not_store {s : Spin τ} (h : SpinInv s) (ht : s.stance t = .inside) (hu : u ≠ t)
    {i : Nat} {value : BitVec 32} : s.pc u ≠ .store i value := fun hpc =>
  hu (h.guards.unique (by rw [Spin.stance, hpc]; rfl) ht)

theorem SpinInv.start : SpinInv (.start : Spin τ) where
  guards t := iff_of_false (by simp [Spin.stance, Spin.start, SpinPc.stance]) nofun
  read t i value h := by cases h

section Moves

variable [DecidableEq τ] {s s' : Spin τ}

theorem SpinMove.guards (h : Guards s.spinlock s.stance) (hm : SpinMove rounds s t s') :
    Guards s'.spinlock s'.stance := by
  have hother : ∀ (pc : SpinPc) u, u ≠ t →
      (Function.update s.pc t pc u).stance = s.stance u := fun pc u hu => by
    rw [Function.update_of_ne hu]
    rfl
  have hself : ∀ pc : SpinPc, (Function.update s.pc t pc t).stance = pc.stance := fun pc => by
    rw [Function.update_self]
  have hstance : ∀ {pc : SpinPc}, s.pc t = pc → s.stance t = pc.stance := fun hpc => by
    rw [Spin.stance, hpc]
  cases hm with
  | again hpc _ | done hpc _ | load hpc | store hpc | usleep hpc =>
      refine h.move (t := t) (.stays ?_) fun u hu => hother _ u hu
      rw [hstance hpc]
      exact iff_of_eq (congrArg (· = Stance.inside) (hself _))
  | lock hpc hfree =>
      rw [hfree] at h
      exact h.acquire (hself _) fun u hu => hother _ u hu
  | unlock hpc =>
      refine h.leave (hstance hpc) ?_ fun u hu => hother _ u hu
      change (Function.update s.pc t _ t).stance ≠ _
      rw [hself]
      simp [SpinPc.stance]

theorem SpinMove.inv (h : SpinInv s) (hm : SpinMove rounds s t s') : SpinInv s' := by
  refine ⟨hm.guards h.guards, fun u i value hpc' => ?_⟩
  by_cases hu : u = t
  · subst hu
    cases hm with
    | load hpc =>
        simp only [Function.update_self, SpinPc.store.injEq] at hpc'
        exact hpc'.2.symm
    | again | done | lock | store | unlock | usleep => simp at hpc'
  · cases hm with
    | store hpc =>
        have hin : s.stance t = .inside := by rw [Spin.stance, hpc]; rfl
        simp only [Function.update_of_ne hu] at hpc'
        exact absurd hpc' (h.not_store hin hu)
    | again | done | lock | load | unlock | usleep =>
        simp only [Function.update_of_ne hu] at hpc'
        exact h.read u i value hpc'

theorem view_update (count : BitVec 32) (spinlock : Option τ) (pc : SpinPc) :
    Spin.view ⟨count, spinlock, Function.update s.pc t pc⟩ =
      ⟨count, Function.update s.view.pc t pc.view⟩ := by
  rw [Spin.view, Xadd.mk.injEq]
  refine ⟨rfl, funext fun u => ?_⟩
  change (Function.update s.pc t pc u).view = _
  by_cases hu : u = t
  · subst hu
    rw [Function.update_self, Function.update_self]
  · rw [Function.update_of_ne hu, Function.update_of_ne hu]
    rfl

/-- Each move is one of `icon_operation.c`, or is not seen there. -/
theorem SpinMove.view (h : SpinInv s) (hm : SpinMove rounds s t s') :
    s'.view = s.view ∨ xaddStep rounds s.view t = some s'.view := by
  have hquiet : ∀ {pc : SpinPc}, pc.view = (s.pc t).view →
      (⟨s.count, Function.update s.view.pc t pc.view⟩ : Xadd τ) = s.view := fun hpc => by
    rw [hpc]
    exact congrArg (Xadd.mk s.count) (Function.update_eq_self t s.view.pc)
  have hplace : s.view.pc t = (s.pc t).view := rfl
  cases hm with
  | @again i hpc hi =>
      refine .inr ?_
      rw [view_update, xaddStep, hplace, hpc]
      simp only [SpinPc.view, if_pos hi]
      rfl
  | @done i hpc hi =>
      refine .inr ?_
      rw [view_update, xaddStep, hplace, hpc]
      simp only [SpinPc.view, if_neg (Nat.not_lt.mpr hi)]
      rfl
  | lock hpc _ | load hpc | unlock hpc =>
      refine .inl ?_
      rw [view_update]
      exact hquiet (by rw [hpc]; rfl)
  | store hpc =>
      refine .inr ?_
      rw [view_update, xaddStep, hplace, hpc, h.read t _ _ hpc]
      rfl
  | usleep hpc =>
      refine .inr ?_
      rw [view_update, xaddStep, hplace, hpc]
      rfl

end Moves

/-! ## Runs of `spinlock.c` -/

/-- The steps that a thread still has to make. -/
def SpinPc.left (rounds : Nat) : SpinPc → Nat
  | .test i => 6 * (rounds - i) + 1
  | .lock i => 6 * (rounds - i) + 6
  | .load i => 6 * (rounds - i) + 5
  | .store i _ => 6 * (rounds - i) + 4
  | .unlock i => 6 * (rounds - i) + 3
  | .usleep i => 6 * (rounds - i) + 2
  | .returned => 0

section Runs

variable [DecidableEq τ] {s s' : Spin τ} {hist : List (τ × Unit)}

theorem SpinMove.left (hm : SpinMove rounds s t s') :
    ∃ pc, s'.pc = Function.update s.pc t pc ∧ pc.left rounds + 1 = (s.pc t).left rounds := by
  cases hm with
  | again hpc hi => exact ⟨_, rfl, by rw [hpc]; simp only [SpinPc.left]; omega⟩
  | done hpc hi => exact ⟨_, rfl, by rw [hpc]; simp only [SpinPc.left]; omega⟩
  | lock hpc _ | load hpc | store hpc | unlock hpc | usleep hpc =>
      exact ⟨_, rfl, by rw [hpc]; rfl⟩

/-- As long as a thread has not returned, one of them can go on. -/
theorem SpinInv.stuck_iff (h : SpinInv s) :
    (∀ t, spinStep rounds s t = none) ↔ ∀ t, s.pc t = .returned := by
  constructor
  · intro hstuck t
    have hfree : s.spinlock = none := by
      by_contra hheld
      obtain ⟨u, hu⟩ := Option.ne_none_iff_exists'.mp hheld
      have hin : (s.pc u).stance = .inside := (h.guards u).mpr hu
      have hu' := hstuck u
      unfold spinStep at hu'
      cases hpc : s.pc u with
      | load | store | unlock => simp [hpc] at hu'
      | test | lock | usleep | returned => simp [hpc, SpinPc.stance] at hin
    have ht := hstuck t
    unfold spinStep at ht
    cases hpc : s.pc t with
    | returned => rfl
    | lock => simp [hpc, hfree] at ht
    | test | load | store | unlock | usleep => simp [hpc] at ht
  · intro hall t
    rw [spinStep, hall t]

/-- `spinlock.c` refines `icon_operation.c`. -/
theorem spin_refines_xadd (hrun : SpinRun rounds hist s) :
    SpinInv s ∧ ∃ hist', XaddRun rounds hist' s.view :=
  hrun.exists_view Spin.view .start
    (fun _ _ _ _ h hstep => (spinMove_of_step hstep).inv h)
    fun _ t _ _ h hstep => ((spinMove_of_step hstep).view h).imp_right fun heq => ⟨t, (), heq⟩

/-- A thread has made as many steps as it is ahead of where it started. -/
theorem steps_of_run (hrun : SpinRun rounds hist s) (t : τ) :
    hist.countP (fun en => en.1 = t) + (s.pc t).left rounds = 6 * rounds + 1 := by
  refine hrun.countP_add_measure (m := fun s => (s.pc t).left rounds) fun s u _ s' hstep => ?_
  obtain ⟨pc, hpc, hleft⟩ := (spinMove_of_step hstep).left
  rw [hpc]
  by_cases hu : u = t
  · subst hu
    rw [Function.update_self, if_pos (decide_eq_true rfl), hleft]
  · rw [Function.update_of_ne (Ne.symm hu), if_neg (by simpa using hu), Nat.add_zero]

/-- Any number of threads, scheduled in any way, each of which counts up to
    `rounds` as in `spinlock.c`, with a sum that an `int` can hold.  The run is
    one of `icon_operation.c`; whoever reads the counter finds in it what the
    threads have added so far; each thread makes at most six steps a round and
    one more, and when none can go on, all have returned, with every increment
    in the counter. -/
theorem spinlock_counts [Fintype τ] (hrun : SpinRun rounds hist s)
    (hint : Fintype.card τ * rounds < 2 ^ 31) :
    (∃ hist', XaddRun rounds hist' s.view) ∧
    s.count.toInt = ∑ t, (s.pc t).view.made rounds ∧
    (∀ t, hist.countP (fun en => en.1 = t) ≤ 6 * rounds + 1) ∧
    ((∀ t, spinStep rounds s t = none) → (∀ t, s.pc t = .returned) ∧
      s.count.toInt = Fintype.card τ * rounds) := by
  obtain ⟨hinv, hist', hrun'⟩ := spin_refines_xadd hrun
  have htally := tallied_of_run hrun'
  have hsteps := steps_of_run hrun
  have hcount : s.count.toInt = ∑ t, (s.view.pc t).made rounds :=
    (congrArg BitVec.toInt htally.count).trans
      (toInt_ofNat_of_lt (Nat.lt_of_le_of_lt htally.sum_le hint))
  refine ⟨⟨hist', hrun'⟩, hcount, fun t => by have := hsteps t; omega, fun hstuck => ?_⟩
  have hall := hinv.stuck_iff.mp hstuck
  have hsum : ∑ t, (s.view.pc t).made rounds = Fintype.card τ * rounds :=
    Finset.sum_const_nat fun t _ => by
      change (s.pc t).view.made rounds = rounds
      rw [hall t]
      rfl
  refine ⟨hall, ?_⟩
  rw [hcount, hsum, Int.natCast_mul]

end Runs

/-- Two threads, once each; the second finds the lock taken until the first
    gives it back. -/
theorem spinlock_counts_two : ∃ (hist : List (Fin 2 × Unit)) (s : Spin (Fin 2)),
    SpinRun 1 hist s ∧ (∀ t, spinStep 1 s t = none) ∧ hist.length = 14 ∧
    s.count.toInt = (Fintype.card (Fin 2) : Int) * (1 : Nat) := by
  obtain ⟨s, hrun, hP⟩ := run_of_movesTo (f := spinStep 1) (s := (Spin.start : Spin (Fin 2)))
    (l := [0, 1, 0, 0, 0, 0, 1, 0, 0, 1, 1, 1, 1, 1])
    (P := fun s => decide (∀ t, (spinStep 1 s t).isNone)) (by decide)
  have hstuck : ∀ t, spinStep 1 s t = none := fun t =>
    Option.isNone_iff_eq_none.mp (of_decide_eq_true hP t)
  exact ⟨_, s, hrun, hstuck, rfl, ((spinlock_counts hrun (by decide)).2.2.2 hstuck).2⟩

end LinuxLearning.Counter
