/-
  LinuxLearning.ThreadPool.WorkersExit

  After the broadcast of `nthreadpool_delete` every worker leaves.  Each of
  its own steps brings it nearer to its exit, and only the mutex can keep it
  from a step; whoever holds the mutex gives it back after a few steps of its
  own.  So in a fair run the worker arrives, if the task it may be running
  returns.
-/

import LinuxLearning.Lib.Fairness
import LinuxLearning.ThreadPool.Shutdown

namespace LinuxLearning.ThreadPool

open Lib

variable {ι : Type} {s s' s₀ : Pool ι} {w v a : Addr} {p : ι} {done : List Op}
  {garbage : Option Addr} {ws : List Addr} {e : Event ι} {u : PoolThread ι}

/-- Whose step it is; a task's return and a wake-up without a signal are
    nobody's, and so is the decision to call. -/
def Event.thread : Event ι → Option (PoolThread ι)
  | .callback w => some (.worker w)
  | .push p _ => some (.pusher p)
  | .delete _ => some .deleter
  | .taskReturn _ _ | .wakeUp _ | .callPush _ _ | .callDelete => none

/-! ## The way of a worker -/

/-- How far a worker is from its exit, once its flag is set. -/
def WorkerPc.rank : WorkerPc → Nat
  | .exited => 0
  | .unlockStop => 1
  | .testStop => 2
  | .testStopInWait => 3
  | .testList => 4
  | .lock | .woken => 5
  | .running _ => 6
  | .call _ => 7
  | .unlockTask _ => 8
  | .pop => 9
  | .wait => 10
  | .waiting => 11

/-- A worker's own step brings it nearer. -/
theorem callbackMove_rank (hstop : AllStopped s ws) (hnone : NoneWaits s ws) (hw : w ∈ ws)
    (hm : CallbackMove s w s' done) : (s'.pc w).rank < (s.pc w).rank := by
  cases hm with
  | lock hpc _ => rcases hpc with hpc | hpc <;> simp [hpc, WorkerPc.rank]
  | noStopInWait _ hn hne => exact absurd (hstop w hw _ hn) hne
  | noStop _ hn hne => exact absurd (hstop w hw _ hn) hne
  | wait hpc => exact absurd hpc (hnone w hw).1
  | listEmpty hpc _ | listFilled hpc _ | stopInWait hpc _ _ | stop hpc _ _ | exit hpc
  | pop hpc _ | unlockTask hpc | call hpc => simp [hpc, WorkerPc.rank]

/-- Any other step leaves the worker where it is or brings it nearer. -/
theorem poolMove_rank [DecidableEq ι] (hstop : AllStopped s ws) (hnone : NoneWaits s ws)
    (hw : w ∈ ws) (hm : PoolMove s s' done) :
    s'.pc w = s.pc w ∨ (s'.pc w).rank < (s.pc w).rank := by
  have hstays : StaysOrWoken (s.pc w) (s'.pc w) → s'.pc w = s.pc w :=
    fun h => h.resolve_right fun hwait => (hnone w hw).2 hwait.1
  cases hm with
  | callback v hm =>
      by_cases hv : w = v
      · subst hv
        exact .inr (callbackMove_rank hstop hnone hw hm)
      · exact .inl (callbackMove_pc_of_ne hm hv)
  | push p hm => exact .inl (hstays (pushMove_pc hm w))
  | delete hm => exact .inl (hstays (deleteMove_pc hm w))
  | @taskReturn v t left hpc =>
      by_cases hv : w = v
      · subst hv
        exact .inr (by simp [hpc, WorkerPc.rank])
      · exact .inl (setPc_pc_of_ne _ _ hv)
  | @wakeUp v hpc =>
      by_cases hv : w = v
      · subst hv
        exact absurd hpc (hnone w hw).2
      · exact .inl (setPc_pc_of_ne _ _ hv)
  | callPush hpc | callDelete hpc => exact .inl rfl

/-! ## The holder of the mutex -/

/-- How far a thread inside is from giving the mutex back. -/
def Pool.insideRank (s : Pool ι) : PoolThread ι → Nat
  | .worker w =>
      match s.pc w with
      | .testList => 5
      | .testStopInWait => 4
      | .testStop => 3
      | .wait | .pop => 2
      | .unlockStop | .unlockTask _ => 1
      | _ => 0
  | .pusher p =>
      match s.pusher p with
      | .insert _ => 3
      | .signal _ => 2
      | .unlock _ => 1
      | _ => 0
  | .deleter =>
      match s.deleter with
      | .broadcast => 2
      | .unlock => 1
      | _ => 0

/-- What a step means to the holder `u` of the mutex: it has given it back,
    or it still has it and is not farther from giving it back; nearer, if the
    step was its own. -/
def HolderGoesOn (s s' : Pool ι) (u : PoolThread ι) (own : Prop) : Prop :=
  s'.mutex = none ∨ s'.mutex = some u ∧ s'.insideRank u ≤ s.insideRank u ∧
    (own → s'.insideRank u < s.insideRank u)

/-- A step of a thread that is not concerned with the mutex. -/
theorem HolderGoesOn.of_same {own : Prop} (hu : s'.mutex = some u) (hnot : ¬ own)
    (hrank : s'.insideRank u = s.insideRank u) : HolderGoesOn s s' u own :=
  .inr ⟨hu, Nat.le_of_eq hrank, fun hown => absurd hown hnot⟩

/-- A step of the holder inside. -/
theorem HolderGoesOn.of_lt {own : Prop} (hu : s'.mutex = some u)
    (hrank : s'.insideRank u < s.insideRank u) : HolderGoesOn s s' u own :=
  .inr ⟨hu, Nat.le_of_lt hrank, fun _ => hrank⟩

theorem insideRank_setPc_of_ne (pc : WorkerPc) (h : u ≠ .worker w) :
    (s.setPc w pc).insideRank u = s.insideRank u := by
  cases u with
  | worker v =>
      have hv : v ≠ w := fun heq => h (heq ▸ rfl)
      simp only [Pool.insideRank, setPc_pc_of_ne s pc hv]
  | pusher q => rfl
  | deleter => rfl

theorem callbackMove_holder (hg : Guards s.mutex s.stance) (hu : s.mutex = some u)
    (hm : CallbackMove s w s' done) : HolderGoesOn s s' u (u = .worker w) := by
  by_cases hown : u = .worker w
  · subst hown
    have hin : (s.pc w).stance = .inside := (hg (.worker w)).mpr hu
    cases hm with
    | lock _ hfree => rw [hfree] at hu; cases hu
    | wait _ | exit _ | unlockTask _ => exact .inl rfl
    | call hpc => rw [hpc] at hin; cases hin
    | listEmpty hpc _ | listFilled hpc _ | stopInWait hpc _ _ | noStopInWait hpc _ _
    | stop hpc _ _ | noStop hpc _ _ | pop hpc _ =>
        exact .of_lt hu (by simp [Pool.insideRank, hpc])
  · have hout : (s.pc w).stance ≠ .inside := fun hin =>
      hown (Option.some.inj (hu.symm.trans ((hg (.worker w)).mp hin)))
    cases hm with
    | lock _ hfree => rw [hfree] at hu; cases hu
    | call hpc => exact .of_same hu hown (insideRank_setPc_of_ne _ hown)
    | listEmpty hpc _ | listFilled hpc _ | stopInWait hpc _ _ | noStopInWait hpc _ _ | wait hpc
    | stop hpc _ _ | noStop hpc _ _ | exit hpc | pop hpc _ | unlockTask hpc =>
        exact absurd (by rw [hpc]; rfl) hout

theorem pushMove_holder [DecidableEq ι] (hg : Guards s.mutex s.stance) (hu : s.mutex = some u)
    (hm : PushMove s p s' done) : HolderGoesOn s s' u (u = .pusher p) := by
  by_cases hown : u = .pusher p
  · subst hown
    cases hm with
    | lock _ hfree => rw [hfree] at hu; cases hu
    | unlock _ => exact .inl rfl
    | insert hpc => exact .of_lt hu (by simp [Pool.insideRank, Pool.setPusher, hpc])
    | @signal t woken hpc _ =>
        refine .of_lt ?_ (by simp [Pool.insideRank, Pool.setPusher, hpc])
        cases woken <;> exact hu
  · have hout : (s.pusher p).stance ≠ .inside := fun hin =>
      hown (Option.some.inj (hu.symm.trans ((hg (.pusher p)).mp hin)))
    cases hm with
    | lock _ hfree => rw [hfree] at hu; cases hu
    | insert hpc | signal hpc _ | unlock hpc => exact absurd (by rw [hpc]; rfl) hout

theorem deleteMove_holder (hg : Guards s.mutex s.stance) (hu : s.mutex = some u)
    (hm : DeleteMove s garbage s' done) : HolderGoesOn s s' u (u = .deleter) := by
  by_cases hown : u = .deleter
  · subst hown
    have hin : s.deleter.stance = .inside := (hg .deleter).mpr hu
    cases hm with
    | lock _ hfree => rw [hfree] at hu; cases hu
    | unlock _ => exact .inl rfl
    | broadcast hd => exact .of_lt hu (by simp [Pool.insideRank, hd])
    | stopsSet hd | setStop hd _ | done hd | join hd _ _ | free hd _ | next hd _
    | nextFreed hd _ => rw [hd] at hin; cases hin
  · have hout : s.deleter.stance ≠ .inside := fun hin =>
      hown (Option.some.inj (hu.symm.trans ((hg .deleter).mp hin)))
    have hrank : ∀ {s' : Pool ι}, s'.pc = s.pc → s'.pusher = s.pusher →
        s'.insideRank u = s.insideRank u := by
      intro s' hpc hpusher
      cases u with
      | worker v => simp only [Pool.insideRank, hpc]
      | pusher q => simp only [Pool.insideRank, hpusher]
      | deleter => exact absurd rfl hown
    cases hm with
    | lock _ hfree => rw [hfree] at hu; cases hu
    | broadcast hd | unlock hd => exact absurd (by rw [hd]; rfl) hout
    | stopsSet _ | setStop _ _ | done _ | join _ _ _ | free _ _ | next _ _ | nextFreed _ _ =>
        exact .of_same hu hown (hrank rfl rfl)

/-- Whoever holds the mutex goes on to give it back, and nobody gets in the
    way. -/
theorem step_holder [DecidableEq ι] (hg : Guards s.mutex s.stance) (hu : s.mutex = some u)
    (hstep : step s e = .ok (s', done)) : HolderGoesOn s s' u (e.thread = some u) := by
  have hin : s.stance u = .inside := (hg u).mpr hu
  have hout : ∀ w, (s.pc w).stance ≠ .inside → u ≠ .worker w := by
    rintro w hw rfl
    exact hw hin
  cases e with
  | callback w =>
      have h := callbackMove_holder hg hu (callbackStep_ok hstep)
      exact h.imp_right (And.imp_right (And.imp_right fun hlt heq =>
        hlt (Option.some.inj heq).symm))
  | push p woken =>
      have h := pushMove_holder hg hu (pushStep_ok hstep)
      exact h.imp_right (And.imp_right (And.imp_right fun hlt heq =>
        hlt (Option.some.inj heq).symm))
  | delete garbage =>
      have h := deleteMove_holder hg hu (deleteStep_ok hstep)
      exact h.imp_right (And.imp_right (And.imp_right fun hlt heq =>
        hlt (Option.some.inj heq).symm))
  | taskReturn w left =>
      simp only [step] at hstep
      split at hstep <;> cases hstep
      rename_i t hpc
      have hne : u ≠ .worker w := hout w (by rw [hpc]; simp [WorkerPc.stance])
      exact .of_same hu (by simp [Event.thread]) (insideRank_setPc_of_ne _ hne)
  | wakeUp w =>
      simp only [step] at hstep
      split at hstep <;> cases hstep
      rename_i hpc
      have hne : u ≠ .worker w := hout w (by rw [hpc]; decide)
      exact .of_same hu (by simp [Event.thread]) (insideRank_setPc_of_ne _ hne)
  | callPush p t =>
      simp only [step] at hstep
      split at hstep <;> cases hstep
      rename_i hpc
      refine .of_same hu (by simp [Event.thread]) ?_
      cases u with
      | pusher q =>
          have hq : q ≠ p := by
            rintro rfl
            have hpin : (s.pusher q).stance = .inside := hin
            rw [hpc] at hpin
            cases hpin
          simp only [Pool.insideRank, Pool.setPusher, Function.update_of_ne hq]
      | worker v => rfl
      | deleter => rfl
  | callDelete =>
      simp only [step] at hstep
      split at hstep <;> cases hstep
      rename_i hd
      refine .of_same hu (by simp [Event.thread]) ?_
      cases u with
      | deleter =>
          have hdin : s.deleter.stance = .inside := hin
          rw [hd] at hdin
          cases hdin
      | worker v => rfl
      | pusher q => rfl

/-- The thread `u` can take a step. -/
def CanStep [DecidableEq ι] (u : PoolThread ι) (s : Pool ι) : Prop :=
  Enabled (StepsOf step) (fun e => e.thread = some u) s

theorem canStep_of_ok [DecidableEq ι] (e : Event ι) (he : e.thread = some u)
    (h : ∃ r, step s e = .ok r) : CanStep u s := by
  obtain ⟨r, hr⟩ := h
  exact ⟨e, r.2, r.1, he, hr⟩

/-- The worker `w` can go on, wherever it does not wait, except for its mutex
    or its task. -/
theorem worker_canStep [DecidableEq ι] (h : PoolInv s ws)
    (hpc : (s.pc w).stance = .inside ∨ (∃ t, s.pc w = .call t) ∨
      (s.pc w = .lock ∨ s.pc w = .woken) ∧ s.mutex = none) : CanStep (.worker w) s := by
  refine canStep_of_ok (.callback w) rfl ?_
  simp only [step, callbackStep]
  cases hw : s.pc w with
  | lock | woken =>
      have hfree : s.mutex = none := by simpa [hw, WorkerPc.stance] using hpc
      simp [hfree]
  | testList => cases s.taskList <;> simp
  | testStopInWait | testStop =>
      obtain ⟨-, n, hn⟩ := h.nodes.node w (by rw [hw]; decide)
      simp [hn]
  | pop =>
      cases htop : s.taskList with
      | none => exact absurd htop ((h.seen w).pop hw)
      | some t => simp
  | waiting | running t | exited => simp [hw, WorkerPc.stance] at hpc
  | _ => simp

/-- The holder of the mutex can always go on. -/
theorem holder_canStep [DecidableEq ι] (h : PoolInv s ws) (hu : s.mutex = some u) :
    CanStep u s := by
  have hin : s.stance u = .inside := (h.guards u).mpr hu
  cases u with
  | worker w => exact worker_canStep h (.inl hin)
  | pusher p =>
      have hpin : (s.pusher p).stance = .inside := hin
      cases hp : s.pusher p with
      | away | lock t => simp [hp, PusherPc.stance] at hpin
      | insert t | unlock t =>
          exact canStep_of_ok (.push p none) rfl (by simp [step, pushStep, hp])
      | signal t =>
          by_cases hw : ∃ w, s.pc w = .waiting
          · obtain ⟨w, hw⟩ := hw
            have hto : s.SignalTo (some w) := hw
            exact canStep_of_ok (.push p (some w)) rfl (by simp [step, pushStep, hp, hto])
          · have hto : s.SignalTo none := fun w _ hwait => hw ⟨w, hwait⟩
            exact canStep_of_ok (.push p none) rfl (by simp [step, pushStep, hp, hto])
  | deleter =>
      have hdin : s.deleter.stance = .inside := hin
      cases hd : s.deleter with
      | broadcast | unlock =>
          exact canStep_of_ok (.delete none) rfl (by simp [step, deleteStep, hd])
      | _ => simp [hd, DeleterPc.stance] at hdin

/-! ## Fair runs -/

section Fair

variable [DecidableEq ι] {r : InfiniteRun (StepsOf (step (ι := ι)))}

/-- Every thread that is able to take a step infinitely often takes one
    infinitely often. -/
def AllFair (r : InfiniteRun (StepsOf (step (ι := ι)))) : Prop :=
  ∀ u, r.StronglyFair fun e => e.thread = some u

/-- Nobody keeps the mutex for good. -/
theorem mutex_free_often (hfair : AllFair r) (hinv : ∀ i, PoolInv (r.state i) ws) (n : Nat) :
    ∃ i, n ≤ i ∧ (r.state i).mutex = none := by
  by_contra hnever
  have hheld : ∀ i, n ≤ i → (r.state i).mutex ≠ none := fun i hi hfree => hnever ⟨i, hi, hfree⟩
  obtain ⟨u, hu⟩ := Option.ne_none_iff_exists'.mp (hheld n (Nat.le_refl n))
  have hstep : ∀ i, n ≤ i → (r.state i).mutex = some u →
      HolderGoesOn (r.state i) (r.state (i + 1)) u (r.Happens (fun e => e.thread = some u) i) := by
    intro i _ hui
    cases hev : r.event i with
    | none =>
        refine .of_same ?_ ?_ ?_
        · rw [r.idle i hev]
          exact hui
        · rintro ⟨e, o, -, he⟩
          rw [hev] at he
          cases he
        · rw [r.idle i hev]
    | some en =>
        refine (step_holder (hinv i).guards hui (r.step i en.1 en.2 hev)).imp_right
          (And.imp_right (And.imp_right fun hlt hhap => hlt ?_))
        obtain ⟨e, o, hthread, he⟩ := hhap
        obtain rfl : en = (e, o) := Option.some.inj (hev.symm.trans he)
        exact hthread
  -- the first to hold the mutex from moment `n` on still holds it
  have howner : ∀ i, n ≤ i → (r.state i).mutex = some u := by
    intro i hi
    induction i, hi using Nat.le_induction with
    | base => exact hu
    | succ i hi ih =>
        rcases hstep i hi ih with hfree | ⟨hown, -⟩
        · exact absurd hfree (hheld (i + 1) (Nat.le_succ_of_le hi))
        · exact hown
  have hgoes := fun i (hi : n ≤ i) =>
    (hstep i hi (howner i hi)).resolve_left (hheld (i + 1) (Nat.le_succ_of_le hi))
  obtain ⟨k, hk, hstuck⟩ := InfiniteRun.eventually_disabled (hfair u)
    (fun s => s.insideRank u) (fun i hi => (hgoes i hi).2.1) (fun i hi => (hgoes i hi).2.2)
  exact (hstuck k (Nat.le_refl k)).2 (holder_canStep (hinv k) (howner k hk))

/-- In a fair run with all flags set and nobody waiting, a worker whose task
    returns comes to its exit. -/
theorem worker_exits (hfair : AllFair r) (hinv : ∀ i, PoolInv (r.state i) ws)
    (hpast : ∀ i, (r.state i).deleter.Past) (hw : w ∈ ws)
    (hreturns : ∀ i t, (r.state i).pc w = .running t →
      ∃ j, i ≤ j ∧ (r.state j).pc w ≠ .running t) :
    ∃ i, (r.state i).pc w = .exited := by
  have hstop := fun i => (hinv i).stop.of_past (hpast i)
  have hmove : ∀ i, (r.state (i + 1)).pc w = (r.state i).pc w ∨
      ((r.state (i + 1)).pc w).rank < ((r.state i).pc w).rank := by
    intro i
    cases hev : r.event i with
    | none => exact .inl (by rw [r.idle i hev])
    | some en =>
        exact poolMove_rank (hstop i).1 (hstop i).2 hw (step_ok (r.step i en.1 en.2 hev))
  have hle : ∀ i, 0 ≤ i → ((r.state (i + 1)).pc w).rank ≤ ((r.state i).pc w).rank := by
    intro i _
    rcases hmove i with heq | hlt
    · rw [heq]
    · exact Nat.le_of_lt hlt
  have hlt : ∀ i, 0 ≤ i → r.Happens (fun e => e.thread = some (.worker w)) i →
      ((r.state (i + 1)).pc w).rank < ((r.state i).pc w).rank := by
    rintro i - ⟨e, o, hthread, hev⟩
    have hstep := r.step i e o hev
    cases e with
    | callback v =>
        obtain rfl : v = w := by simpa [Event.thread] using hthread
        exact callbackMove_rank (hstop i).1 (hstop i).2 hw (callbackStep_ok hstep)
    | _ => simp [Event.thread] at hthread
  obtain ⟨k, -, hstuck⟩ := InfiniteRun.eventually_disabled (hfair (.worker w))
    (fun s => (s.pc w).rank) hle hlt
  have hsame : ∀ i, k ≤ i → (r.state i).pc w = (r.state k).pc w := by
    intro i hi
    induction i, hi using Nat.le_induction with
    | base => rfl
    | succ i hi ih =>
        have h₁ := (hstuck i hi).1
        have h₂ := (hstuck (i + 1) (Nat.le_succ_of_le hi)).1
        exact ((hmove i).resolve_right (by omega)).trans ih
  -- from `k` on it is not able to go on, and nothing but its exit accounts for that
  have hcannot := fun i (hi : k ≤ i) => (hstuck i hi).2
  have hnotInside : ((r.state k).pc w).stance ≠ .inside := fun hin =>
    hcannot k (Nat.le_refl k) (worker_canStep (hinv k) (.inl hin))
  cases hpc : (r.state k).pc w with
  | exited => exact ⟨k, hpc⟩
  | running t =>
      obtain ⟨j, hj, hne⟩ := hreturns k t hpc
      exact absurd ((hsame j hj).trans hpc) hne
  | call t =>
      exact absurd (worker_canStep (hinv k) (.inr (.inl ⟨t, hpc⟩))) (hcannot k (Nat.le_refl k))
  | lock | woken =>
      obtain ⟨i, hi, hfree⟩ := mutex_free_often hfair hinv k
      have hpci := (hsame i hi).trans hpc
      refine absurd (worker_canStep (hinv i) (.inr (.inr ⟨?_, hfree⟩))) (hcannot i hi)
      simp [hpci]
  | waiting => exact absurd hpc ((hstop k).2 w hw).2
  | testList | testStopInWait | wait | testStop | unlockStop | pop | unlockTask t =>
      exact absurd (by rw [hpc]; rfl) hnotInside

end Fair

/-! ## No worker is stranded -/

/-- After the broadcast of `nthreadpool_delete` no worker waits without having
    been signalled, none enters `pthread_cond_wait`, and in every fair
    continuation each worker whose tasks return comes to its exit. -/
theorem shutdown_strands_no_worker [DecidableEq ι] {hist : History ι} (h₀ : Created s₀ ws)
    (hrun : PoolRun s₀ hist s) (hbroadcast : .broadcast ∈ ops hist) :
    (∀ w ∈ ws, s.pc w ≠ .waiting) ∧
    (∀ e s' done, step s e = .ok (s', done) → ∀ w ∈ ws, .waits w ∉ done) ∧
    (∀ r : InfiniteRun (StepsOf step), r.state 0 = s → AllFair r → ∀ w ∈ ws,
      (∀ i t, (r.state i).pc w = .running t → ∃ j, i ≤ j ∧ (r.state j).pc w ≠ .running t) →
      ∃ i, (r.state i).pc w = .exited) := by
  obtain ⟨hinv, hpast⟩ := poolInv_of_run h₀ hrun
  have hpast := hpast hbroadcast
  obtain ⟨hstop, hnone⟩ := hinv.stop.of_past hpast
  refine ⟨fun w hw => (hnone w hw).2, fun e s' done hstep w hw hmem => ?_,
    fun r hr hfair w hw hreturns => ?_⟩
  · cases step_ok hstep with
    | callback v hm =>
        cases hm with
        | wait hpc =>
            obtain rfl : w = v := by simpa using hmem
            exact (hnone w hw).1 hpc
        | _ => simp at hmem
    | push p hm => cases hm <;> simp at hmem
    | delete hm => cases hm <;> simp at hmem
    | _ => simp at hmem
  · have hall : ∀ i, PoolInv (r.state i) ws ∧ (r.state i).deleter.Past :=
      InfiniteRun.invariant (P := fun s => PoolInv s ws ∧ s.deleter.Past)
        (by rw [hr]; exact ⟨hinv, hpast⟩)
        fun _ _ _ _ h hstep => ⟨h.1.move (step_ok hstep), poolMove_past (step_ok hstep) (.inl h.2)⟩
    exact worker_exits hfair (fun i => (hall i).1) (fun i => (hall i).2) hw hreturns

/-- One worker that waits when the pool is deleted, up to the broadcast. -/
def deleteWhileWaiting : List (Event Unit) :=
  [.callback 1, .callback 1, .callback 1, .callback 1, .callDelete, .delete none, .delete none,
    .delete none, .delete none]

theorem shutdown_strands_no_worker_waiting : ∃ (hist : History Unit) (s : Pool Unit),
    Created (Pool.create [1] : Pool Unit) [1] ∧ PoolRun (Pool.create [1]) hist s ∧
    .waits 1 ∈ ops hist ∧ .broadcast ∈ ops hist ∧ s.pc 1 = .woken ∧
    (∀ w ∈ [1], s.pc w ≠ .waiting) ∧
    (∀ e s' done, step s e = .ok (s', done) → ∀ w ∈ [1], .waits w ∉ done) ∧
    (∀ r : InfiniteRun (StepsOf step), r.state 0 = s → AllFair r → ∀ w ∈ [1],
      (∀ i t, (r.state i).pc w = .running t → ∃ j, i ≤ j ∧ (r.state j).pc w ≠ .running t) →
      ∃ i, (r.state i).pc w = .exited) := by
  obtain ⟨hist, s, hexec, hP⟩ := exec_of_execsTo (f := step) (s := Pool.create [1])
    (l := deleteWhileWaiting)
    (P := fun hist s =>
      decide (.waits 1 ∈ ops hist ∧ .broadcast ∈ ops hist ∧ s.pc 1 = .woken)) (by decide)
  obtain ⟨hwaits, hbroadcast, hwoken⟩ := of_decide_eq_true hP
  have hcreated : Created (Pool.create [1] : Pool Unit) [1] := created_create (by decide)
  have hrun := run_of_exec hexec
  exact ⟨hist, s, hcreated, hrun, hwaits, hbroadcast, hwoken,
    shutdown_strands_no_worker hcreated hrun hbroadcast⟩

/-! ## Fair runs exist -/

/-- When everyone has left, nobody can take a step. -/
theorem not_canStep [DecidableEq ι] (hw : ∀ w, s.pc w = .exited) (hp : ∀ p, s.pusher p = .away)
    (hd : s.deleter = .returned) : ¬ CanStep u s := by
  rintro ⟨e, done, s', hthread, hstep⟩
  have hstep' : step s e = .ok (s', done) := hstep
  cases e with
  | callback w => simp [step, callbackStep, hw w] at hstep'
  | push p woken => simp [step, pushStep, hp p] at hstep'
  | delete garbage => simp [step, deleteStep, hd] at hstep'
  | _ => cases hthread

/-- The rest of the deletion, if freed memory keeps its contents. -/
def finishDelete : List (Event Unit) :=
  [.delete none, .callback 1, .callback 1, .callback 1, .callback 1, .callback 1, .delete none,
    .delete none, .delete none, .delete none]

/-- From the broadcast on there is a fair run, in which the worker leaves. -/
theorem exists_fair_run : ∃ (hist : History Unit) (s : Pool Unit)
    (r : InfiniteRun (StepsOf (step (ι := Unit)))),
    PoolRun (Pool.create [1]) hist s ∧ .broadcast ∈ ops hist ∧ r.state 0 = s ∧ AllFair r := by
  obtain ⟨hist, s, hexec, hP⟩ := exec_of_execsTo (f := step) (s := Pool.create [1])
    (l := deleteWhileWaiting)
    (P := fun hist s => decide (.broadcast ∈ ops hist) &&
      execsTo step s finishDelete fun _ s' =>
        decide (s'.pc 1 = .exited ∧ s'.pusher () = .away ∧ s'.deleter = .returned)) (by decide)
  obtain ⟨hbroadcast, hrest⟩ := Bool.and_eq_true_iff.mp hP
  obtain ⟨hist', s', hexec', hQ⟩ := exec_of_execsTo hrest
  obtain ⟨hexited, haway, hreturned⟩ := of_decide_eq_true hQ
  have hrun := run_of_exec hexec
  have hinv := (poolInv_of_run (created_create (by decide))
    (Run.append hrun (run_of_exec hexec'))).1
  have hall : ∀ w, s'.pc w = .exited := by
    intro w
    by_contra hw
    obtain ⟨hmem, -⟩ := hinv.nodes.node w hw
    obtain rfl : w = 1 := by simpa using hmem
    exact hw hexited
  obtain ⟨r, hr, hfair⟩ := InfiniteRun.exists_append
    (r := InfiniteRun.constant (StepsOf step) s') (run_of_exec hexec') rfl
  exact ⟨hist, s, r, hrun, of_decide_eq_true hbroadcast, hr, fun u =>
    hfair _ (InfiniteRun.constant_fair (not_canStep hall (fun _ => haway) hreturned))⟩

end LinuxLearning.ThreadPool
