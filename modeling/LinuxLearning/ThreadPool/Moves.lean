/-
  LinuxLearning.ThreadPool.Moves

  What a step of each thread can do, said once: the place the thread was at,
  what it found, and the pool it leaves.  The invariants of the later modules
  are read off these lists.  Mutual exclusion is the first.
-/

import LinuxLearning.ThreadPool.Pool

namespace LinuxLearning.ThreadPool

open Lib

variable {ι : Type} {s s' : Pool ι} {w v : Addr} {p q : ι} {done : List Op} {garbage : Option Addr}

/-! ## The moves of a worker -/

/-- The moves of the worker `w`. -/
inductive CallbackMove (s : Pool ι) (w : Addr) : Pool ι → List Op → Prop
  | lock : s.pc w = .lock ∨ s.pc w = .woken → s.mutex = none →
      CallbackMove s w ({ s with mutex := some (.worker w) }.setPc w .testList) []
  | listEmpty : s.pc w = .testList → s.taskList = none →
      CallbackMove s w (s.setPc w .testStopInWait) []
  | listFilled {t : Addr} : s.pc w = .testList → s.taskList = some t →
      CallbackMove s w (s.setPc w .testStop) []
  | stopInWait {n : Worker} : s.pc w = .testStopInWait → s.workers w = some n → n.stop = 1 →
      CallbackMove s w (s.setPc w .testStop) []
  | noStopInWait {n : Worker} : s.pc w = .testStopInWait → s.workers w = some n → n.stop ≠ 1 →
      CallbackMove s w (s.setPc w .wait) []
  | wait : s.pc w = .wait →
      CallbackMove s w ({ s with mutex := none }.setPc w .waiting) [.waits w]
  | stop {n : Worker} : s.pc w = .testStop → s.workers w = some n → n.stop = 1 →
      CallbackMove s w (s.setPc w .unlockStop) []
  | noStop {n : Worker} : s.pc w = .testStop → s.workers w = some n → n.stop ≠ 1 →
      CallbackMove s w (s.setPc w .pop) []
  | exit : s.pc w = .unlockStop → CallbackMove s w ({ s with mutex := none }.setPc w .exited) []
  | pop {t : Addr} : s.pc w = .pop → s.taskList = some t →
      CallbackMove s w
        ({ s with tasks := (s.tasks.unlink s.taskList t).1
                  taskList := (s.tasks.unlink s.taskList t).2 }.setPc w (.unlockTask t))
        [.popped w t]
  | unlockTask {t : Addr} : s.pc w = .unlockTask t →
      CallbackMove s w ({ s with mutex := none }.setPc w (.call t)) []
  | call {t : Addr} : s.pc w = .call t → CallbackMove s w (s.setPc w (.running t)) [.called w t]

theorem callbackStep_ok (h : callbackStep s w = .ok (s', done)) : CallbackMove s w s' done := by
  unfold callbackStep at h
  split at h
  · rename_i hpc
    split at h <;> cases h
    exact .lock (.inl hpc) ‹_›
  · rename_i hpc
    split at h <;> cases h
    exact .lock (.inr hpc) ‹_›
  · split at h <;> cases h
    · exact .listEmpty ‹_› ‹_›
    · exact .listFilled ‹_› ‹_›
  · split at h <;> cases h
    split
    · exact .stopInWait ‹_› ‹_› ‹_›
    · exact .noStopInWait ‹_› ‹_› ‹_›
  · cases h
    exact .wait ‹_›
  · split at h <;> cases h
    split
    · exact .stop ‹_› ‹_› ‹_›
    · exact .noStop ‹_› ‹_› ‹_›
  · cases h
    exact .exit ‹_›
  · split at h
    · cases h
    · rename_i htop
      cases h
      exact .pop ‹_› htop
  · cases h
    exact .unlockTask ‹_›
  · cases h
    exact .call ‹_›
  all_goals cases h

/-! ## The moves of a thread that pushes -/

/-- The moves of the pushing thread `p`. -/
inductive PushMove [DecidableEq ι] (s : Pool ι) (p : ι) : Pool ι → List Op → Prop
  | lock {t : Addr} : s.pusher p = .lock t → s.mutex = none →
      PushMove s p ({ s with mutex := some (.pusher p) }.setPusher p (.insert t)) []
  | insert {t : Addr} : s.pusher p = .insert t →
      PushMove s p
        ({ s with tasks := (s.tasks.pushFront s.taskList t).1
                  taskList := (s.tasks.pushFront s.taskList t).2 }.setPusher p (.signal t))
        [.inserted t]
  | signal {t : Addr} {woken : Option Addr} : s.pusher p = .signal t → s.SignalTo woken →
      PushMove s p ((s.signal woken).setPusher p (.unlock t)) []
  | unlock {t : Addr} : s.pusher p = .unlock t →
      PushMove s p ({ s with mutex := none }.setPusher p .away) [.pushed t]

theorem pushStep_ok [DecidableEq ι] {woken : Option Addr}
    (h : pushStep s p woken = .ok (s', done)) : PushMove s p s' done := by
  unfold pushStep at h
  split at h
  · cases h
  · split at h <;> cases h
    exact .lock ‹_› ‹_›
  · cases h
    exact .insert ‹_›
  · split at h <;> cases h
    exact .signal ‹_› ‹_›
  · cases h
    exact .unlock ‹_›

/-! ## The moves of the thread that deletes the pool -/

/-- The moves of the thread in `nthreadpool_delete`. -/
inductive DeleteMove (s : Pool ι) (garbage : Option Addr) : Pool ι → List Op → Prop
  | stopsSet : s.deleter = .setStop none → DeleteMove s garbage { s with deleter := .lock } []
  | setStop {a : Addr} {n : Worker} : s.deleter = .setStop (some a) → s.workers a = some n →
      DeleteMove s garbage
        { s with workers := Function.update s.workers a (some { n with stop := 1 })
                 deleter := .setStop n.link.next } []
  | lock : s.deleter = .lock → s.mutex = none →
      DeleteMove s garbage { s with mutex := some .deleter, deleter := .broadcast } []
  | broadcast : s.deleter = .broadcast →
      DeleteMove s garbage { s.wakeAll with deleter := .unlock } [.broadcast]
  | unlock : s.deleter = .unlock →
      DeleteMove s garbage { s with mutex := none, deleter := .join s.workerList } []
  | done : s.deleter = .join none →
      DeleteMove s garbage { s with workerList := none, deleter := .returned } [.deleteReturned]
  | join {a : Addr} {n : Worker} : s.deleter = .join (some a) → s.workers a = some n →
      s.pc a = .exited → DeleteMove s garbage { s with deleter := .free a } [.joined a]
  | free {a : Addr} {n : Worker} : s.deleter = .free a → s.workers a = some n →
      DeleteMove s garbage
        { s with workers := Function.update s.workers a none, deleter := .next a } [.freed a]
  | next {a : Addr} {n : Worker} : s.deleter = .next a → s.workers a = some n →
      DeleteMove s garbage { s with deleter := .join n.link.next } []
  | nextFreed {a : Addr} : s.deleter = .next a → s.workers a = none →
      DeleteMove s garbage { s with deleter := .join garbage } [.readFreed a]

theorem deleteStep_ok (h : deleteStep s garbage = .ok (s', done)) :
    DeleteMove s garbage s' done := by
  unfold deleteStep at h
  split at h
  · cases h
  · cases h
  · cases h
    exact .stopsSet ‹_›
  · split at h <;> cases h
    exact .setStop ‹_› ‹_›
  · split at h <;> cases h
    exact .lock ‹_› ‹_›
  · cases h
    exact .broadcast ‹_›
  · cases h
    exact .unlock ‹_›
  · cases h
    exact .done ‹_›
  · split at h
    · cases h
    · split at h <;> cases h
      exact .join ‹_› ‹_› ‹_›
  · split at h <;> cases h
    exact .free ‹_› ‹_›
  · split at h <;> cases h
    · exact .nextFreed ‹_› ‹_›
    · exact .next ‹_› ‹_›

/-! ## The moves of the pool -/

/-- A step is a move of one of the threads, or one that the threads do not
    make by themselves: a call, the return of a task, a wake-up without a
    signal. -/
inductive PoolMove [DecidableEq ι] (s : Pool ι) : Pool ι → List Op → Prop
  | callback (w : Addr) {s' : Pool ι} {done : List Op} :
      CallbackMove s w s' done → PoolMove s s' done
  | push (p : ι) {s' : Pool ι} {done : List Op} : PushMove s p s' done → PoolMove s s' done
  | delete {garbage : Option Addr} {s' : Pool ι} {done : List Op} :
      DeleteMove s garbage s' done → PoolMove s s' done
  | taskReturn {w t : Addr} {left : Link Addr} : s.pc w = .running t →
      PoolMove s ({ s with tasks := Function.update s.tasks t left }.setPc w .lock)
        [.executed w t]
  | wakeUp {w : Addr} : s.pc w = .waiting → PoolMove s (s.setPc w .woken) []
  | callPush {p : ι} {t : Addr} : s.pusher p = .away → PoolMove s (s.setPusher p (.lock t)) []
  | callDelete : s.deleter = .away →
      PoolMove s { s with deleter := .setStop s.workerList } [.deleteCalled]

theorem step_ok [DecidableEq ι] {e : Event ι} (h : step s e = .ok (s', done)) :
    PoolMove s s' done := by
  cases e with
  | callback w => exact .callback w (callbackStep_ok h)
  | push p woken => exact .push p (pushStep_ok h)
  | delete garbage => exact .delete (deleteStep_ok h)
  | taskReturn w left =>
      simp only [step] at h
      split at h <;> cases h
      exact .taskReturn ‹_›
  | wakeUp w =>
      simp only [step] at h
      split at h <;> cases h
      exact .wakeUp ‹_›
  | callPush p t =>
      simp only [step] at h
      split at h <;> cases h
      exact .callPush ‹_›
  | callDelete =>
      simp only [step] at h
      split at h <;> cases h
      exact .callDelete ‹_›

/-! ## Where the workers are -/

@[simp] theorem setPc_pc_self (s : Pool ι) (w : Addr) (pc : WorkerPc) :
    (s.setPc w pc).pc w = pc := Function.update_self ..

theorem setPc_pc_of_ne (s : Pool ι) (pc : WorkerPc) (h : v ≠ w) :
    (s.setPc w pc).pc v = s.pc v := Function.update_of_ne h ..

/-- Someone else's move leaves a worker where it is, or wakes it. -/
def StaysOrWoken (pc pc' : WorkerPc) : Prop := pc' = pc ∨ pc = .waiting ∧ pc' = .woken

theorem callbackMove_pc_of_ne (hm : CallbackMove s w s' done) (hv : v ≠ w) :
    s'.pc v = s.pc v := by
  cases hm <;> exact setPc_pc_of_ne _ _ hv

theorem signal_pc {woken : Option Addr} (h : s.SignalTo woken) (v : Addr) :
    StaysOrWoken (s.pc v) ((s.signal woken).pc v) := by
  cases woken with
  | none => exact .inl rfl
  | some w =>
      by_cases hv : v = w
      · subst hv
        exact .inr ⟨h, setPc_pc_self ..⟩
      · exact .inl (setPc_pc_of_ne _ _ hv)

theorem pushMove_pc [DecidableEq ι] (hm : PushMove s p s' done) (v : Addr) :
    StaysOrWoken (s.pc v) (s'.pc v) := by
  cases hm with
  | signal _ hto => exact signal_pc hto v
  | lock _ _ | insert _ | unlock _ => exact .inl rfl

theorem deleteMove_pc (hm : DeleteMove s garbage s' done) (v : Addr) :
    StaysOrWoken (s.pc v) (s'.pc v) := by
  cases hm with
  | broadcast _ =>
      by_cases hv : s.pc v = .waiting
      · exact .inr ⟨hv, if_pos hv⟩
      · exact .inl (if_neg hv)
  | _ => exact .inl rfl

/-! ## Mutual exclusion -/

theorem stance_setPc_of_ne (s : Pool ι) (pc : WorkerPc) {t : PoolThread ι}
    (h : t ≠ .worker w) : (s.setPc w pc).stance t = s.stance t := by
  cases t with
  | worker v => exact congrArg WorkerPc.stance (setPc_pc_of_ne s pc fun hv => h (hv ▸ rfl))
  | pusher q => rfl
  | deleter => rfl

theorem stance_setPusher_of_ne [DecidableEq ι] (s : Pool ι) (pc : PusherPc) {t : PoolThread ι}
    (h : t ≠ .pusher p) : (s.setPusher p pc).stance t = s.stance t := by
  cases t with
  | pusher q =>
      have hne : q ≠ p := fun hq => h (by rw [hq])
      exact congrArg PusherPc.stance (Function.update_of_ne hne ..)
  | worker v => rfl
  | deleter => rfl

/-- A worker's move keeps mutual exclusion. -/
theorem guards_setPc {pc : WorkerPc} {owner' : Option (PoolThread ι)}
    (h : Guards s.mutex s.stance)
    (hp : Passes (.worker w) (s.pc w).stance pc.stance s.mutex owner') :
    Guards owner' (s.setPc w pc).stance := by
  refine h.move (t := .worker w) ?_ fun t => stance_setPc_of_ne s pc
  show Passes _ (s.pc w).stance ((s.setPc w pc).pc w).stance _ _
  rw [setPc_pc_self]
  exact hp

/-- A pushing thread's move keeps mutual exclusion. -/
theorem guards_setPusher [DecidableEq ι] {pc : PusherPc} {owner' : Option (PoolThread ι)}
    (h : Guards s.mutex s.stance)
    (hp : Passes (.pusher p) (s.pusher p).stance pc.stance s.mutex owner') :
    Guards owner' (s.setPusher p pc).stance := by
  refine h.move (t := .pusher p) ?_ fun t => stance_setPusher_of_ne s pc
  show Passes _ (s.pusher p).stance ((s.setPusher p pc).pusher p).stance _ _
  have hself : (s.setPusher p pc).pusher p = pc := Function.update_self ..
  rw [hself]
  exact hp

/-- The deleting thread's move keeps mutual exclusion. -/
theorem guards_deleter {pc : DeleterPc} {owner' : Option (PoolThread ι)}
    (h : Guards s.mutex s.stance)
    (hp : Passes .deleter s.deleter.stance pc.stance s.mutex owner') :
    Guards owner' { s with deleter := pc }.stance := by
  refine h.move (t := .deleter) hp fun t ht => ?_
  cases t with
  | deleter => exact absurd rfl ht
  | worker v => rfl
  | pusher q => rfl

theorem callbackMove_guards (h : Guards s.mutex s.stance) (hm : CallbackMove s w s' done) :
    Guards s'.mutex s'.stance := by
  cases hm with
  | lock hpc hfree =>
      refine guards_setPc (s := s) h ?_
      rw [hfree]
      exact .enters rfl
  | listEmpty hpc _ => exact guards_setPc h (hpc ▸ .stays (by decide))
  | listFilled hpc _ => exact guards_setPc h (hpc ▸ .stays (by decide))
  | stopInWait hpc _ _ => exact guards_setPc h (hpc ▸ .stays (by decide))
  | noStopInWait hpc _ _ => exact guards_setPc h (hpc ▸ .stays (by decide))
  | wait hpc => exact guards_setPc (s := s) h (hpc ▸ .leaves rfl (by decide))
  | stop hpc _ _ => exact guards_setPc h (hpc ▸ .stays (by decide))
  | noStop hpc _ _ => exact guards_setPc h (hpc ▸ .stays (by decide))
  | exit hpc => exact guards_setPc (s := s) h (hpc ▸ .leaves rfl (by decide))
  | pop hpc _ => exact guards_setPc (s := s) h (hpc ▸ .stays Iff.rfl)
  | unlockTask hpc =>
      exact guards_setPc (s := s) h (hpc ▸ .leaves rfl (by simp [WorkerPc.stance]))
  | call hpc => exact guards_setPc h (hpc ▸ .stays Iff.rfl)

theorem pushMove_guards [DecidableEq ι] (h : Guards s.mutex s.stance)
    (hm : PushMove s p s' done) : Guards s'.mutex s'.stance := by
  cases hm with
  | lock hpc hfree =>
      refine guards_setPusher (s := s) h ?_
      rw [hfree]
      exact .enters rfl
  | insert hpc => exact guards_setPusher (s := s) h (hpc ▸ .stays Iff.rfl)
  | @signal t woken hpc hto =>
      cases woken with
      | none => exact guards_setPusher h (hpc ▸ .stays Iff.rfl)
      | some w =>
          have hw : s.pc w = .waiting := hto
          have hwake : Guards s.mutex (s.setPc w .woken).stance :=
            guards_setPc h (hw ▸ .stays (by decide))
          exact guards_setPusher (s := s.setPc w .woken) hwake (hpc ▸ .stays Iff.rfl)
  | unlock hpc => exact guards_setPusher (s := s) h (hpc ▸ .leaves rfl (by decide))

/-- Being woken lets nobody in. -/
theorem guards_wakeAll {owner : Option (PoolThread ι)} (h : Guards owner s.stance) :
    Guards owner s.wakeAll.stance := by
  refine h.keep fun t => ?_
  cases t with
  | worker w =>
      by_cases hw : s.pc w = .waiting
      · simp [Pool.stance, Pool.wakeAll, hw, WorkerPc.stance]
      · simp [Pool.stance, Pool.wakeAll, hw]
  | pusher p => rfl
  | deleter => rfl

theorem deleteMove_guards (h : Guards s.mutex s.stance) (hm : DeleteMove s garbage s' done) :
    Guards s'.mutex s'.stance := by
  cases hm with
  | stopsSet hpc => exact guards_deleter h (hpc ▸ .stays Iff.rfl)
  | setStop hpc _ => exact guards_deleter (s := s) h (hpc ▸ .stays Iff.rfl)
  | lock hpc hfree =>
      refine guards_deleter (s := s) h ?_
      rw [hfree]
      exact .enters rfl
  | broadcast hpc =>
      exact guards_deleter (s := s.wakeAll) (guards_wakeAll h) (hpc ▸ .stays Iff.rfl)
  | unlock hpc =>
      exact guards_deleter (s := s) h (hpc ▸ .leaves rfl (by simp [DeleterPc.stance]))
  | done hpc => exact guards_deleter (s := s) h (hpc ▸ .stays Iff.rfl)
  | join hpc _ _ => exact guards_deleter h (hpc ▸ .stays Iff.rfl)
  | free hpc _ => exact guards_deleter (s := s) h (hpc ▸ .stays Iff.rfl)
  | next hpc _ => exact guards_deleter h (hpc ▸ .stays Iff.rfl)
  | nextFreed hpc _ => exact guards_deleter h (hpc ▸ .stays Iff.rfl)

/-- Every step keeps mutual exclusion. -/
theorem poolMove_guards [DecidableEq ι] (h : Guards s.mutex s.stance)
    (hm : PoolMove s s' done) : Guards s'.mutex s'.stance := by
  cases hm with
  | callback w hm => exact callbackMove_guards h hm
  | push p hm => exact pushMove_guards h hm
  | delete hm => exact deleteMove_guards h hm
  | taskReturn hpc => exact guards_setPc (s := s) h (hpc ▸ .stays Iff.rfl)
  | wakeUp hpc => exact guards_setPc h (hpc ▸ .stays (by decide))
  | callPush hpc => exact guards_setPusher h (hpc ▸ .stays Iff.rfl)
  | callDelete hpc => exact guards_deleter h (hpc ▸ .stays Iff.rfl)

/-- The mutex is free and all threads are outside at first. -/
theorem Created.guards {ws : List Addr} (h : Created s ws) : Guards s.mutex s.stance := by
  rw [h.mutex]
  intro t
  refine iff_of_false ?_ (Option.some_ne_none t ∘ Eq.symm)
  cases t with
  | worker w =>
      by_cases hw : w ∈ ws
      · simp [Pool.stance, h.atStart w hw, WorkerPc.stance]
      · simp [Pool.stance, h.others w hw, WorkerPc.stance]
  | pusher p => simp [Pool.stance, h.pushers p, PusherPc.stance]
  | deleter => simp [Pool.stance, h.deleter, DeleterPc.stance]

end LinuxLearning.ThreadPool
