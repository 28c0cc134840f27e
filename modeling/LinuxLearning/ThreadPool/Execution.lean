/-
  LinuxLearning.ThreadPool.Execution

  What the pool is for: the tasks that are pushed are run.

  While a task is on the list, a worker is awake, or a pusher is about to
  wake one: a worker goes to sleep only under the mutex, with the list seen
  empty.  An awake worker comes to take a task in a fair run.  As the list
  gives out the task pushed last, a task is sure of its turn only if the
  pushes come to an end.
-/

import LinuxLearning.ThreadPool.Creation
import LinuxLearning.ThreadPool.WorkersExit

namespace LinuxLearning.ThreadPool

open Lib

variable {ι : Type} {s s' s₀ : Pool ι} {w v t : Addr} {p : ι} {done : List Op}
  {garbage : Option Addr} {ws : List Addr} {e : Event ι}

/-! ## No lost wake-up -/

/-- A worker that finds the list empty still does when it goes to sleep; and
    while a task is on the list, somebody attends to it. -/
structure Attended (s : Pool ι) (ws : List Addr) : Prop where
  started : s.started = ws
  empty : ∀ w, s.pc w = .testStopInWait ∨ s.pc w = .wait → s.taskList = none
  awake : s.taskList ≠ none → (∃ w ∈ ws, s.pc w ≠ .waiting) ∨ ∃ p t, s.pusher p = .signal t

/-- A worker that tests its flag or goes to sleep is inside. -/
theorem inside_of_empty (h : s.pc w = .testStopInWait ∨ s.pc w = .wait) :
    s.stance (.worker w) = .inside := by
  show (s.pc w).stance = .inside
  rcases h with h | h <;> rw [h] <;> rfl

/-- Someone else's move, which leaves the list alone and lets nobody fall
    asleep. -/
theorem Attended.keep (h : Attended s ws) (hstarted : s'.started = s.started)
    (hpc : ∀ v, StaysOrWoken (s.pc v) (s'.pc v)) (hlist : s'.taskList = s.taskList)
    (hsignal : ∀ p t, s.pusher p = .signal t → s'.pusher p = .signal t) : Attended s' ws where
  started := hstarted.trans h.started
  empty v hv := by
    rw [hlist]
    rcases hpc v with heq | ⟨-, heq⟩
    · exact h.empty v (by rwa [heq] at hv)
    · rw [heq] at hv
      simp at hv
  awake hne := by
    rw [hlist] at hne
    refine (h.awake hne).imp ?_ ?_
    · rintro ⟨v, hv, hawake⟩
      refine ⟨v, hv, ?_⟩
      rcases hpc v with heq | ⟨-, heq⟩
      · rwa [heq]
      · rw [heq]
        decide
    · exact fun ⟨p, t, hp⟩ => ⟨p, t, hsignal p t hp⟩

/-- A worker that moves is awake, or has seen the list empty. -/
theorem callbackMove_attended (hinv : PoolInv s ws) (h : Attended s ws)
    (hm : CallbackMove s w s' done) : Attended s' ws := by
  have hmem := (hinv.nodes.node w (callbackMove_not_exited hm)).1
  refine ⟨(callbackMove_started hm).trans h.started, fun v hv => ?_, fun hne => ?_⟩
  · by_cases hvw : v = w
    · subst hvw
      cases hm with
      | listEmpty _ hnone => exact hnone
      | noStopInWait hpc _ _ => exact h.empty v (.inl hpc)
      | _ => simp at hv
    · rw [callbackMove_pc_of_ne hm hvw] at hv
      cases hm with
      | pop hpc _ =>
          -- two workers would be inside
          have hin : s.stance (.worker w) = .inside := by
            show (s.pc w).stance = .inside
            rw [hpc]
            rfl
          cases hinv.guards.unique (inside_of_empty hv) hin
          exact absurd rfl hvw
      | _ => exact h.empty v hv
  · cases hm with
    | wait hpc => exact absurd (h.empty w (.inr hpc)) hne
    | _ => exact .inl ⟨w, hmem, by simp⟩

theorem pushMove_attended [DecidableEq ι] (hinv : PoolInv s ws) (hws : ws ≠ [])
    (h : Attended s ws) (hm : PushMove s p s' done) : Attended s' ws := by
  have hpusher : ∀ {pc : PusherPc}, (∀ t, s.pusher p ≠ .signal t) → ∀ q t,
      s.pusher q = .signal t → Function.update s.pusher p pc q = .signal t := by
    intro pc hp q t hq
    have hqp : q ≠ p := by
      rintro rfl
      exact hp t hq
    rw [Function.update_of_ne hqp]
    exact hq
  cases hm with
  | lock hpc _ | unlock hpc =>
      exact h.keep rfl (fun v => .inl rfl) rfl (hpusher (by rw [hpc]; nofun))
  | @insert t hpc =>
      refine ⟨h.started, fun v hv => ?_, fun _ => .inr ⟨p, t, Function.update_self ..⟩⟩
      -- the pusher is inside, so nobody else is
      have hin : s.stance (.pusher p) = .inside := by
        show (s.pusher p).stance = .inside
        rw [hpc]
        rfl
      cases hinv.guards.unique (inside_of_empty (s := s) hv) hin
  | @signal t woken hpc hto =>
      have hempty : ∀ v, StaysOrWoken (s.pc v) ((s.signal woken).pc v) := signal_pc hto
      refine ⟨?_, fun v hv => ?_, fun _ => .inl ?_⟩
      · cases woken <;> exact h.started
      · have hlist : ((s.signal woken).setPusher p (.unlock t)).taskList = s.taskList := by
          cases woken <;> rfl
        rw [hlist]
        change (s.signal woken).pc v = _ ∨ (s.signal woken).pc v = _ at hv
        rcases hempty v with heq | ⟨-, heq⟩
        · exact h.empty v (by rwa [heq] at hv)
        · rw [heq] at hv
          simp at hv
      · cases woken with
        | some v =>
            have hv : s.pc v = .waiting := hto
            refine ⟨v, (hinv.nodes.node v (by rw [hv]; decide)).1, ?_⟩
            show (s.setPc v .woken).pc v ≠ .waiting
            rw [setPc_pc_self]
            decide
        | none =>
            obtain ⟨v, rest, rfl⟩ := List.exists_cons_of_ne_nil hws
            exact ⟨v, List.mem_cons_self, hto v (h.started ▸ List.mem_cons_self)⟩

/-- Every step keeps it. -/
theorem poolMove_attended [DecidableEq ι] (hinv : PoolInv s ws) (hws : ws ≠ [])
    (h : Attended s ws) (hm : PoolMove s s' done) : Attended s' ws := by
  cases hm with
  | callback w hm => exact callbackMove_attended hinv h hm
  | push p hm => exact pushMove_attended hinv hws h hm
  | delete hm =>
      refine h.keep ?_ (deleteMove_pc hm) ?_ fun p t hp => ?_
      all_goals cases hm
      all_goals first | rfl | exact hp
  | @taskReturn w t left hpc =>
      refine ⟨h.started, fun v hv => ?_, fun _ => .inl ⟨w, ?_, by simp⟩⟩
      · by_cases hvw : v = w
        · subst hvw
          simp at hv
        · exact h.empty v (by rwa [setPc_pc_of_ne _ _ hvw] at hv)
      · exact (hinv.nodes.node w (by rw [hpc]; simp)).1
  | @wakeUp w hpc =>
      refine h.keep rfl (fun v => ?_) rfl fun _ _ hp => hp
      by_cases hvw : v = w
      · subst hvw
        exact .inr ⟨hpc, setPc_pc_self ..⟩
      · exact .inl (setPc_pc_of_ne _ _ hvw)
  | @callPush p t hpc =>
      refine h.keep rfl (fun v => .inl rfl) rfl fun q u hq => ?_
      have hqp : q ≠ p := by
        rintro rfl
        rw [hpc] at hq
        cases hq
      exact (Function.update_of_ne hqp ..).trans hq
  | callDelete _ => exact h.keep rfl (fun v => .inl rfl) rfl fun _ _ hp => hp

theorem Created.attended (h : Created s ws) : Attended s ws where
  started := h.started
  empty _ _ := h.taskList
  awake hne := absurd h.taskList hne

/-! ## The way to a task -/

/-- How far a worker is from taking a task; zero if it is not on its way to
    one. -/
def WorkerPc.toTask : WorkerPc → Nat
  | .pop => 1
  | .testStop => 2
  | .testList => 3
  | .lock | .woken => 4
  | .running _ => 5
  | .call _ => 6
  | .unlockTask _ => 7
  | .testStopInWait | .wait | .waiting | .unlockStop | .exited => 0

/-- As long as no task is taken, the list is not emptied. -/
theorem taskList_ne_none [DecidableEq ι] (hm : PoolMove s s' done) (hne : s.taskList ≠ none)
    (hpop : poppedTasks done = []) : s'.taskList ≠ none := by
  cases hm with
  | callback w hm =>
      cases hm with
      | pop _ _ => simp [poppedTasks] at hpop
      | _ => exact hne
  | push p hm =>
      cases hm with
      | insert _ => simp [Pool.setPusher]
      | @signal t woken _ _ => cases woken <;> exact hne
      | _ => exact hne
  | delete hm => cases hm <;> exact hne
  | taskReturn _ | wakeUp _ | callPush _ | callDelete _ => exact hne

/-- A worker on its way to a task that is there stays on its way. -/
theorem poolMove_toTask [DecidableEq ι] (hm : PoolMove s s' done) (hne : s.taskList ≠ none)
    (hstop : ∀ n, s.workers w = some n → n.stop ≠ 1) (hpop : poppedTasks done = [])
    (hway : 0 < (s.pc w).toTask) :
    s'.pc w = s.pc w ∨ 0 < (s'.pc w).toTask ∧ (s'.pc w).toTask < (s.pc w).toTask := by
  have hstays : StaysOrWoken (s.pc w) (s'.pc w) → s'.pc w = s.pc w := fun h =>
    h.resolve_right fun hwait => by simp [hwait.1, WorkerPc.toTask] at hway
  cases hm with
  | callback v hm =>
      by_cases hv : w = v
      · subst hv
        refine .inr ?_
        cases hm with
        | lock hpc _ => rcases hpc with hpc | hpc <;> simp [hpc, WorkerPc.toTask]
        | listEmpty _ hnone => exact absurd hnone hne
        | stop _ hn hone => exact absurd hone (hstop _ hn)
        | pop _ _ => simp [poppedTasks] at hpop
        | stopInWait hpc _ _ | noStopInWait hpc _ _ | wait hpc | exit hpc =>
            simp [hpc, WorkerPc.toTask] at hway
        | listFilled hpc _ | noStop hpc _ _ | unlockTask hpc | call hpc =>
            simp [hpc, WorkerPc.toTask]
      · exact .inl (callbackMove_pc_of_ne hm hv)
  | push p hm => exact .inl (hstays (pushMove_pc hm w))
  | delete hm => exact .inl (hstays (deleteMove_pc hm w))
  | @taskReturn v t left hpc =>
      by_cases hv : w = v
      · subst hv
        exact .inr (by simp [hpc, WorkerPc.toTask])
      · exact .inl (setPc_pc_of_ne _ _ hv)
  | @wakeUp v hpc =>
      by_cases hv : w = v
      · subst hv
        simp [hpc, WorkerPc.toTask] at hway
      · exact .inl (setPc_pc_of_ne _ _ hv)
  | callPush _ | callDelete _ => exact .inl rfl

/-- A worker that holds a task keeps it until it calls it. -/
theorem poolMove_pending [DecidableEq ι] (hm : PoolMove s s' done)
    (hpend : pending (s.pc w) = [t]) (hcall : .called w t ∉ done) :
    s'.pc w = s.pc w ∨ (s'.pc w).toTask < (s.pc w).toTask := by
  have hstays : StaysOrWoken (s.pc w) (s'.pc w) → s'.pc w = s.pc w := fun h =>
    h.resolve_right fun hwait => by simp [hwait.1, pending] at hpend
  cases hm with
  | callback v hm =>
      by_cases hv : w = v
      · subst hv
        cases hm with
        | lock hpc _ => rcases hpc with hpc | hpc <;> simp [hpc, pending] at hpend
        | @call u hpc =>
            obtain rfl : u = t := by simpa [hpc, pending] using hpend
            exact absurd (List.mem_singleton_self _) hcall
        | unlockTask hpc => exact .inr (by simp [hpc, WorkerPc.toTask])
        | listEmpty hpc _ | listFilled hpc _ | stopInWait hpc _ _ | noStopInWait hpc _ _
        | wait hpc | stop hpc _ _ | noStop hpc _ _ | exit hpc | pop hpc _ =>
            simp [hpc, pending] at hpend
      · exact .inl (callbackMove_pc_of_ne hm hv)
  | push p hm => exact .inl (hstays (pushMove_pc hm w))
  | delete hm => exact .inl (hstays (deleteMove_pc hm w))
  | @taskReturn v u left hpc | @wakeUp v hpc =>
      by_cases hv : w = v
      · subst hv
        simp [hpc, pending] at hpend
      · exact .inl (setPc_pc_of_ne _ _ hv)
  | callPush _ | callDelete _ => exact .inl rfl

/-- A worker's own step takes it elsewhere. -/
theorem callbackMove_pc_ne (hm : CallbackMove s w s' done) : s'.pc w ≠ s.pc w := by
  cases hm with
  | lock hpc _ => rcases hpc with hpc | hpc <;> simp [hpc]
  | listEmpty hpc _ | listFilled hpc _ | stopInWait hpc _ _ | noStopInWait hpc _ _ | wait hpc
  | stop hpc _ _ | noStop hpc _ _ | exit hpc | pop hpc _ | unlockTask hpc | call hpc =>
      simp [hpc]

/-! ## Fair runs -/

section Fair

variable [DecidableEq ι] {r : InfiniteRun (StepsOf (step (ι := ι)))}

/-- Every task that is started returns. -/
def TasksReturn (r : InfiniteRun (StepsOf (step (ι := ι)))) : Prop :=
  ∀ w i t, (r.state i).pc w = .running t → ∃ j, i ≤ j ∧ (r.state j).pc w ≠ .running t

/-- A worker does not stay where it is, unless it sleeps or has left. -/
theorem worker_moves (hfair : AllFair r) (hinv : ∀ i, PoolInv (r.state i) ws)
    (hreturns : TasksReturn r) {k : Nat} (hwaiting : (r.state k).pc w ≠ .waiting)
    (hexited : (r.state k).pc w ≠ .exited) :
    ∃ i, k ≤ i ∧ (r.state i).pc w ≠ (r.state k).pc w := by
  by_contra hnever
  have hsame : ∀ i, k ≤ i → (r.state i).pc w = (r.state k).pc w := fun i hi => by
    by_contra hne
    exact hnever ⟨i, hi, hne⟩
  have hquiet : ∀ i, k ≤ i → ¬ r.Happens (fun e => e.thread = some (.worker w)) i := by
    rintro i hi ⟨e, o, hthread, hev⟩
    have hstep := r.step i e o hev
    have hstay := (hsame (i + 1) (Nat.le_succ_of_le hi)).trans (hsame i hi).symm
    cases e with
    | callback v =>
        obtain rfl : v = w := by simpa [Event.thread] using hthread
        exact callbackMove_pc_ne (callbackStep_ok hstep) hstay
    | _ => simp [Event.thread] at hthread
  -- so from some moment on it is not able to go on
  obtain ⟨l, hl⟩ : ∃ l, ∀ i, l ≤ i → ¬ CanStep (.worker w) (r.state i) := by
    by_contra hoften
    obtain ⟨i, hi, hhap⟩ := hfair (.worker w) (fun n => by
      by_contra hno
      exact hoften ⟨n, fun i hi hcan => hno ⟨i, hi, hcan⟩⟩) k
    exact hquiet i hi hhap
  have hpc := hsame (max k l) (Nat.le_max_left k l)
  have hstuck := hl (max k l) (Nat.le_max_right k l)
  cases hplace : (r.state k).pc w with
  | waiting => exact hwaiting hplace
  | exited => exact hexited hplace
  | running t =>
      obtain ⟨j, hj, hne⟩ := hreturns w k t hplace
      exact hne ((hsame j hj).trans hplace)
  | call t =>
      exact hstuck (worker_canStep (hinv _) (.inr (.inl ⟨t, hpc.trans hplace⟩)))
  | lock | woken =>
      obtain ⟨i, hi, hfree⟩ := mutex_free_often hfair hinv (max k l)
      have hpci := (hsame i (Nat.le_trans (Nat.le_max_left k l) hi)).trans hplace
      refine hl i (Nat.le_trans (Nat.le_max_right k l) hi)
        (worker_canStep (hinv i) (.inr (.inr ⟨?_, hfree⟩)))
      simp [hpci]
  | testList | testStopInWait | wait | testStop | unlockStop | pop | unlockTask t =>
      exact hstuck (worker_canStep (hinv _) (.inl (by rw [hpc, hplace]; rfl)))

/-- A worker that only ever gets nearer to something falls asleep, or
    leaves. -/
theorem worker_rests (hfair : AllFair r) (hinv : ∀ i, PoolInv (r.state i) ws)
    (hreturns : TasksReturn r) (rank : WorkerPc → Nat) {k : Nat}
    (hmove : ∀ i, k ≤ i → (r.state (i + 1)).pc w = (r.state i).pc w ∨
      rank ((r.state (i + 1)).pc w) < rank ((r.state i).pc w)) :
    ∃ i, k ≤ i ∧ ((r.state i).pc w = .waiting ∨ (r.state i).pc w = .exited) := by
  have hle : ∀ i, k ≤ i → rank ((r.state (i + 1)).pc w) ≤ rank ((r.state i).pc w) := by
    intro i hi
    rcases hmove i hi with heq | hlt
    · rw [heq]
    · exact Nat.le_of_lt hlt
  obtain ⟨l, hl, hconst⟩ :=
    InfiniteRun.eventually_const (m := fun i => rank ((r.state i).pc w)) hle
  have hsame : ∀ i, l ≤ i → (r.state i).pc w = (r.state l).pc w := by
    intro i hi
    induction i, hi using Nat.le_induction with
    | base => rfl
    | succ i hi ih =>
        have h₁ := hconst i hi
        have h₂ := hconst (i + 1) (Nat.le_succ_of_le hi)
        exact ((hmove i (Nat.le_trans hl hi)).resolve_right (by omega)).trans ih
  by_contra hnever
  obtain ⟨i, hi, hne⟩ := worker_moves (k := l) hfair hinv hreturns
    (fun h => hnever ⟨l, hl, .inl h⟩) (fun h => hnever ⟨l, hl, .inr h⟩)
  exact hne (hsame i hi)

/-- The pool is not deleted in the run. -/
def Kept (r : InfiniteRun (StepsOf (step (ι := ι)))) : Prop :=
  ∀ i, .deleteCalled ∉ ops (r.history i)

/-- What a run that starts with a new pool is known by, at every moment. -/
structure Serving (r : InfiniteRun (StepsOf (step (ι := ι)))) (ws : List Addr) : Prop where
  inv : ∀ i, PoolInv (r.state i) ws
  attended : ∀ i, Attended (r.state i) ws
  running : ∀ i, ∀ w ∈ ws, ∀ n, (r.state i).workers w = some n → n.stop ≠ 1
  stays : ∀ i, ∀ w ∈ ws, (r.state i).pc w ≠ .unlockStop ∧ (r.state i).pc w ≠ .exited

theorem serving_of_kept (h₀ : Created (r.state 0) ws) (hws : ws ≠ []) (hkept : Kept r) :
    Serving r ws := by
  have hinv : ∀ i, PoolInv (r.state i) ws := fun i => (poolInv_of_run h₀ (r.run_history i)).1
  have hzero : ∀ i, ∀ w ∈ ws, ∃ n, (r.state i).workers w = some n ∧ n.stop = 0 ∧
      Stays (r.state i) w := by
    intro i w hw
    have hstart : Stays (r.state 0) w :=
      .of_pc (by rw [h₀.atStart w hw]; decide) (by rw [h₀.atStart w hw]; decide)
    obtain ⟨-, hworkers, hstays⟩ := stays_of_run (r.run_history i) h₀.deleter hstart (hkept i)
    obtain ⟨n, hn, hstop⟩ := h₀.stop w hw
    exact ⟨n, by rw [hworkers]; exact hn, hstop, hstays⟩
  have hattended : ∀ i, PoolInv (r.state i) ws ∧ Attended (r.state i) ws :=
    InfiniteRun.invariant (P := fun s => PoolInv s ws ∧ Attended s ws)
      ⟨hinv 0, h₀.attended⟩ fun _ _ _ _ h hstep =>
        ⟨h.1.move (step_ok hstep), poolMove_attended h.1 hws h.2 (step_ok hstep)⟩
  refine ⟨hinv, fun i => (hattended i).2, fun i w hw n hn => ?_, fun i w hw => ?_⟩
  · obtain ⟨m, hm, hstop, -⟩ := hzero i w hw
    obtain rfl : m = n := Option.some.inj (hm.symm.trans hn)
    omega
  · obtain ⟨m, hm, hstop, hstays⟩ := hzero i w hw
    exact hstays m hm (by omega)

/-- A worker takes a task at moment `i`. -/
def TakesTask (r : InfiniteRun (StepsOf (step (ι := ι)))) (i : Nat) : Prop :=
  ∃ e done, r.event i = some (e, done) ∧ poppedTasks done ≠ []

/-- What is seen at moment `i` but of a task that is taken. -/
theorem quiet_move {i : Nat} (hquiet : ¬ TakesTask r i) {P : Pool ι → Prop}
    (hsame : P (r.state i)) (hmove : ∀ s' done, PoolMove (r.state i) s' done →
      poppedTasks done = [] → P s') : P (r.state (i + 1)) := by
  cases hev : r.event i with
  | none =>
      rw [r.idle i hev]
      exact hsame
  | some en =>
      refine hmove _ en.2 (step_ok (r.step i en.1 en.2 hev)) ?_
      by_contra hpop
      exact hquiet ⟨en.1, en.2, hev, hpop⟩

/-- While a task is on the list, one is taken sooner or later. -/
theorem Serving.takes (h : Serving r ws) (hfair : AllFair r) (hreturns : TasksReturn r) {n : Nat}
    (hne : (r.state n).taskList ≠ none) : ∃ i, n ≤ i ∧ TakesTask r i := by
  by_contra hnever
  have hquiet : ∀ i, n ≤ i → ¬ TakesTask r i := fun i hi htakes => hnever ⟨i, hi, htakes⟩
  have hlist : ∀ i, n ≤ i → (r.state i).taskList ≠ none := by
    intro i hi
    induction i, hi using Nat.le_induction with
    | base => exact hne
    | succ i hi ih =>
        exact quiet_move (P := fun s => s.taskList ≠ none) (hquiet i hi) ih
          fun s' done hm hpop => taskList_ne_none hm ih hpop
  -- when the mutex is free, no pusher is about to wake somebody, so someone is awake
  obtain ⟨k, hk, hfree⟩ := mutex_free_often hfair h.inv n
  obtain ⟨w, hw, hawake⟩ : ∃ w ∈ ws, (r.state k).pc w ≠ .waiting := by
    refine ((h.attended k).awake (hlist k hk)).resolve_right ?_
    rintro ⟨p, t, hp⟩
    have hin : (r.state k).stance (.pusher p) = .inside := by
      show ((r.state k).pusher p).stance = .inside
      rw [hp]
      rfl
    rw [((h.inv k).guards _).mp hin] at hfree
    cases hfree
  have hstart : 0 < ((r.state k).pc w).toTask := by
    have hout : ((r.state k).pc w).stance ≠ .inside := fun hin => by
      rw [((h.inv k).guards (.worker w)).mp hin] at hfree
      cases hfree
    have hexited := (h.stays k w hw).2
    cases hpc : (r.state k).pc w with
    | lock | woken | call t | running t => exact Nat.succ_pos _
    | waiting => exact absurd hpc hawake
    | exited => exact absurd hpc hexited
    | testList | testStopInWait | wait | testStop | unlockStop | pop | unlockTask t =>
        exact absurd (by rw [hpc]; rfl) hout
  have hmove : ∀ i, k ≤ i → 0 < ((r.state i).pc w).toTask →
      (r.state (i + 1)).pc w = (r.state i).pc w ∨ 0 < ((r.state (i + 1)).pc w).toTask ∧
        ((r.state (i + 1)).pc w).toTask < ((r.state i).pc w).toTask := fun i hi hway =>
    quiet_move (hquiet i (Nat.le_trans hk hi)) (P := fun s => s.pc w = (r.state i).pc w ∨
      0 < (s.pc w).toTask ∧ (s.pc w).toTask < ((r.state i).pc w).toTask) (.inl rfl)
      fun s' done hm hpop => poolMove_toTask hm (hlist i (Nat.le_trans hk hi)) (h.running i w hw)
        hpop hway
  have hway : ∀ i, k ≤ i → 0 < ((r.state i).pc w).toTask := by
    intro i hi
    induction i, hi using Nat.le_induction with
    | base => exact hstart
    | succ i hi ih =>
        rcases hmove i hi ih with heq | ⟨hpos, -⟩
        · rw [heq]
          exact ih
        · exact hpos
  obtain ⟨i, hi, hrest⟩ := worker_rests hfair h.inv hreturns WorkerPc.toTask
    fun i hi => (hmove i hi (hway i hi)).imp_right And.right
  have hpos := hway i hi
  rcases hrest with hpc | hpc <;> simp [hpc, WorkerPc.toTask] at hpos

/-! ## The tasks -/

theorem ops_history_succ (i : Nat) :
    ops (r.history (i + 1)) = ops (r.history i) ++ ops (r.event i).toList := by
  rw [InfiniteRun.history, ops_append]

theorem ops_event {i : Nat} {e : Event ι} (h : r.event i = some (e, done)) :
    ops (r.event i).toList = done := by
  rw [h]
  simp [ops]

theorem mem_ops_history {op : Op} {i j : Nat} (hij : i ≤ j) (h : op ∈ ops (r.history i)) :
    op ∈ ops (r.history j) := by
  obtain ⟨rest, hrest⟩ := r.history_prefix hij
  rw [← hrest, ops_append]
  exact List.mem_append_left _ h

/-- If the list is never empty from some moment on, more tasks are taken than
    any number. -/
theorem many_taken {n : Nat} (htakes : ∀ i, n ≤ i → ∃ j, i ≤ j ∧ TakesTask r j) (c : Nat) :
    ∃ i, n ≤ i ∧ c ≤ (poppedTasks (ops (r.history i))).length := by
  induction c with
  | zero => exact ⟨n, Nat.le_refl n, Nat.zero_le _⟩
  | succ c ih =>
      obtain ⟨i, hi, hc⟩ := ih
      obtain ⟨j, hj, e, done, hev, hpop⟩ := htakes i hi
      refine ⟨j + 1, by omega, ?_⟩
      obtain ⟨rest, hrest⟩ := r.history_prefix hj
      have hpos := List.length_pos_iff.mpr hpop
      rw [ops_history_succ, ops_event hev, ← hrest, ops_append, poppedTasks_append,
        poppedTasks_append, List.length_append, List.length_append]
      omega

/-- A task that was taken is called. -/
theorem Serving.calls (h : Serving r ws) (hfair : AllFair r) (hreturns : TasksReturn r)
    (htasks : ∀ i, TasksInv (ops (r.history i)) (r.state i)) {m : Nat}
    (hpop : .popped w t ∈ ops (r.history m)) : ∃ j, m ≤ j ∧ .called w t ∈ ops (r.history j) := by
  by_contra hnever
  have hnot : ∀ i, m ≤ i → .called w t ∉ ops (r.history i) := fun i hi hmem =>
    hnever ⟨i, hi, hmem⟩
  have hpend : ∀ i, m ≤ i → pending ((r.state i).pc w) = [t] := by
    intro i hi
    have hmem := mem_poppedBy.mpr (mem_ops_history hi hpop)
    rw [(htasks i).calls w, List.mem_append] at hmem
    have hmem := hmem.resolve_left fun hcall => hnot i hi (mem_calledBy.mp hcall)
    cases hpc : (r.state i).pc w with
    | unlockTask u | call u =>
        rw [hpc] at hmem
        obtain rfl := List.mem_singleton.mp hmem
        rfl
    | _ =>
        rw [hpc] at hmem
        cases hmem
  obtain ⟨i, hi, hrest⟩ := worker_rests (w := w) (k := m) hfair h.inv hreturns WorkerPc.toTask
    (by
      intro i hi
      cases hev : r.event i with
      | none => exact .inl (by rw [r.idle i hev])
      | some en =>
          refine poolMove_pending (step_ok (r.step i en.1 en.2 hev)) (hpend i hi) fun hcall => ?_
          refine hnot (i + 1) (Nat.le_succ_of_le hi) ?_
          rw [ops_history_succ, ops_event hev]
          exact List.mem_append_right _ hcall)
  have hp := hpend i hi
  rcases hrest with hpc | hpc <;> simp [hpc, pending] at hp

/-- In a fair run of a pool that was created with at least one worker and is
    not deleted, and whose tasks return: as often as a task is on the list,
    one is taken later.  Each of finitely many tasks that are pushed, no node
    of them twice, is called exactly once, by one worker. -/
theorem pushed_tasks_run (h₀ : Created (r.state 0) ws) (hws : ws ≠ []) (hfair : AllFair r)
    (hkept : Kept r) (hreturns : TasksReturn r) :
    (∀ n, (r.state n).taskList ≠ none → ∃ i, n ≤ i ∧ TakesTask r i) ∧
    ∀ n, (∀ i, n ≤ i → insertedTasks (ops (r.history i)) = insertedTasks (ops (r.history n))) →
      (insertedTasks (ops (r.history n))).Nodup → ∀ t ∈ insertedTasks (ops (r.history n)),
        ∃ w j, ∀ i, j ≤ i → (ops (r.history i)).count (.called w t) = 1 ∧
          ∀ v, .called v t ∈ ops (r.history i) → v = w := by
  have hserving := serving_of_kept h₀ hws hkept
  have htakes : ∀ n, (r.state n).taskList ≠ none → ∃ i, n ≤ i ∧ TakesTask r i :=
    fun n hne => hserving.takes hfair hreturns hne
  refine ⟨htakes, fun n hend hdistinct t ht => ?_⟩
  have htasks : ∀ i, TasksInv (ops (r.history i)) (r.state i) := fun i =>
    tasksInv_of_run h₀ (r.run_history i)
  have hqueue : ∀ i, n ≤ i → ∃ xs, (r.state i).tasks.IsList (r.state i).taskList xs ∧
      (xs ++ poppedTasks (ops (r.history i))).Perm (insertedTasks (ops (r.history n))) := by
    intro i hi
    have hqueue := (htasks i).queue
    rw [hend i hi] at hqueue
    exact hqueue hdistinct
  -- the list is empty once, as no more can be taken than was pushed
  obtain ⟨m, hm, hempty⟩ : ∃ m, n ≤ m ∧ (r.state m).taskList = none := by
    by_contra hnever
    obtain ⟨i, hi, hmany⟩ := many_taken (n := n)
      (fun i hi => htakes i fun hnone => hnever ⟨i, hi, hnone⟩)
      ((insertedTasks (ops (r.history n))).length + 1)
    obtain ⟨xs, -, hperm⟩ := hqueue i hi
    have hlen := hperm.length_eq
    rw [List.length_append] at hlen
    omega
  have hall : ∀ i, n ≤ i → (poppedTasks (ops (r.history i))).Nodup := fun i hi => by
    obtain ⟨xs, -, hperm⟩ := hqueue i hi
    exact (List.nodup_append.mp (hperm.nodup_iff.mpr hdistinct)).2.1
  obtain ⟨w, hpop⟩ : ∃ w, .popped w t ∈ ops (r.history m) := by
    obtain ⟨xs, hl, hperm⟩ := hqueue m hm
    rw [hempty] at hl
    obtain rfl : xs = [] := hl.unique (Links.isList_nil _)
    exact mem_poppedTasks.mp (hperm.mem_iff.mpr ht)
  obtain ⟨j, hj, hcalled⟩ := hserving.calls hfair hreturns htasks hpop
  refine ⟨w, j, fun i hi => ⟨?_, fun v hv => ?_⟩⟩
  · have hmem := mem_calledBy.mpr (mem_ops_history hi hcalled)
    have hnodup : (poppedBy w (ops (r.history i))).Nodup :=
      (hall i (by omega)).sublist (poppedBy_sublist w _)
    rw [(htasks i).calls w] at hnodup
    rw [← count_calledBy]
    exact List.count_eq_one_of_mem (List.nodup_append.mp hnodup).1 hmem
  · have hv' : .popped v t ∈ ops (r.history i) := by
      rw [← mem_poppedBy, (htasks i).calls v]
      exact List.mem_append_left _ (mem_calledBy.mpr hv)
    exact popper_unique (hall i (by omega)) hv' (mem_ops_history (by omega) hpop)

end Fair

/-- When every worker sleeps or has left and nobody calls, nobody can take a
    step. -/
theorem not_canStep_of_asleep [DecidableEq ι] {u : PoolThread ι}
    (hw : ∀ w, s.pc w = .waiting ∨ s.pc w = .exited) (hp : ∀ p, s.pusher p = .away)
    (hd : s.deleter = .away) : ¬ CanStep u s := by
  rintro ⟨e, done, s', hthread, hstep⟩
  have hstep' : step s e = .ok (s', done) := hstep
  cases e with
  | callback w => rcases hw w with hpc | hpc <;> simp [step, callbackStep, hpc] at hstep'
  | push p woken => simp [step, pushStep, hp p] at hstep'
  | delete garbage => simp [step, deleteStep, hd] at hstep'
  | _ => cases hthread

/-- One worker, which is woken for a task, calls it, and goes to sleep again. -/
def wakeAndCall : List (Event Unit) :=
  [.callback 1, .callback 1, .callback 1, .callback 1, .callPush () 5, .push () none,
    .push () none, .push () (some 1), .push () none, .callback 1, .callback 1, .callback 1,
    .callback 1, .callback 1, .callback 1, .taskReturn 1 ⟨none, none⟩, .callback 1, .callback 1,
    .callback 1, .callback 1]

theorem pushed_tasks_run_one : ∃ (r : InfiniteRun (StepsOf (step (ι := Unit)))) (n w j : Nat),
    Created (r.state 0) [1] ∧ AllFair r ∧ Kept r ∧ TasksReturn r ∧
    insertedTasks (ops (r.history n)) = [5] ∧
    ∀ i, j ≤ i → (ops (r.history i)).count (.called w 5) = 1 ∧
      ∀ v, .called v 5 ∈ ops (r.history i) → v = w := by
  obtain ⟨hist, s, hexec, hP⟩ := exec_of_execsTo (f := step) (s := Pool.create [1])
    (l := wakeAndCall)
    (P := fun hist s => decide (insertedTasks (ops hist) = [5] ∧ .deleteCalled ∉ ops hist ∧
      s.pc 1 = .waiting ∧ s.pusher () = .away ∧ s.deleter = .away)) (by decide)
  obtain ⟨hins, hnot, hwaiting, haway, hd⟩ := of_decide_eq_true hP
  have hrun := run_of_exec hexec
  have h₀ : Created (Pool.create [1] : Pool Unit) [1] := created_create (by decide)
  have hasleep : ∀ w, s.pc w = .waiting ∨ s.pc w = .exited := by
    intro w
    by_contra hw
    obtain ⟨hmem, -⟩ := (poolInv_of_run h₀ hrun).1.nodes.node w fun hexited => hw (.inr hexited)
    obtain rfl : w = 1 := by simpa using hmem
    exact hw (.inl hwaiting)
  obtain ⟨r, hr, hstate, hhist, hfair⟩ := InfiniteRun.exists_prepend
    (r := InfiniteRun.constant (StepsOf step) s) hrun rfl
  have hlater : ∀ i, r.history (hist.length + i) = hist := fun i => by
    rw [hhist, InfiniteRun.history_constant, List.append_nil]
  have hallFair : AllFair r := fun u => hfair _
    (InfiniteRun.constant_fair (not_canStep_of_asleep hasleep (fun _ => haway) hd))
  have hkept : Kept r := fun i hmem => hnot (by
    rw [← hlater i]
    exact mem_ops_history (Nat.le_add_left i _) hmem)
  have hreturns : TasksReturn r := fun w i t _ => by
    refine ⟨hist.length + i, Nat.le_add_left i _, ?_⟩
    rw [hstate]
    change s.pc w ≠ .running t
    rcases hasleep w with hpc | hpc <;> rw [hpc] <;> nofun
  have hcreated : Created (r.state 0) [1] := by
    rw [hr]
    exact h₀
  have hfull : insertedTasks (ops (r.history hist.length)) = [5] := by
    have hzero := hlater 0
    rw [Nat.add_zero] at hzero
    rw [hzero, hins]
  obtain ⟨w, j, hcalled⟩ := (pushed_tasks_run hcreated (by decide) hallFair hkept hreturns).2
    hist.length
    (fun i hi => by
      obtain ⟨d, rfl⟩ := Nat.exists_eq_add_of_le hi
      rw [hlater, hfull, hins])
    (by rw [hfull]; decide) 5 (by rw [hfull]; decide)
  exact ⟨r, hist.length, w, j, hcreated, hallFair, hkept, hreturns, hfull, hcalled⟩

end LinuxLearning.ThreadPool
