/-
  LinuxLearning.ThreadPool.TaskQueue

  What becomes of the tasks.  At every moment the tasks inserted so far are
  those on `task_list` and those that one worker has taken off it, and a
  worker has called the tasks it took, in the order it took them, up to the
  one it is about to call.
-/

import LinuxLearning.ThreadPool.Moves

namespace LinuxLearning.ThreadPool

open Lib

variable {ι : Type} {s s' s₀ : Pool ι} {w v t : Addr} {p : ι} {done past : List Op}
  {xs ws : List Addr}

/-! ## Accounts of a run -/

/-- The tasks that were put on the list. -/
def insertedTasks (done : List Op) : List Addr :=
  done.filterMap fun
    | .inserted t => some t
    | _ => none

/-- The tasks that were taken off the list. -/
def poppedTasks (done : List Op) : List Addr :=
  done.filterMap fun
    | .popped _ t => some t
    | _ => none

/-- The tasks the worker `w` took off the list. -/
def poppedBy (w : Addr) (done : List Op) : List Addr :=
  done.filterMap fun
    | .popped v t => if v = w then some t else none
    | _ => none

/-- The tasks the worker `w` called. -/
def calledBy (w : Addr) (done : List Op) : List Addr :=
  done.filterMap fun
    | .called v t => if v = w then some t else none
    | _ => none

/-- The task that was taken and is still to be called. -/
def pending : WorkerPc → List Addr
  | .unlockTask t | .call t => [t]
  | _ => []

/-- The task a worker is concerned with. -/
def WorkerPc.task : WorkerPc → Option Addr
  | .unlockTask t | .call t | .running t => some t
  | _ => none

theorem insertedTasks_append (done₁ done₂ : List Op) :
    insertedTasks (done₁ ++ done₂) = insertedTasks done₁ ++ insertedTasks done₂ :=
  List.filterMap_append ..

theorem poppedTasks_append (done₁ done₂ : List Op) :
    poppedTasks (done₁ ++ done₂) = poppedTasks done₁ ++ poppedTasks done₂ :=
  List.filterMap_append ..

theorem poppedBy_append (w : Addr) (done₁ done₂ : List Op) :
    poppedBy w (done₁ ++ done₂) = poppedBy w done₁ ++ poppedBy w done₂ :=
  List.filterMap_append ..

theorem calledBy_append (w : Addr) (done₁ done₂ : List Op) :
    calledBy w (done₁ ++ done₂) = calledBy w done₁ ++ calledBy w done₂ :=
  List.filterMap_append ..

theorem mem_poppedBy : t ∈ poppedBy w done ↔ .popped w t ∈ done := by
  unfold poppedBy
  rw [List.mem_filterMap]
  constructor
  · rintro ⟨op, hop, h⟩
    cases op with
    | popped v u =>
        by_cases hv : v = w
        · obtain rfl : u = t := by simpa [hv] using h
          exact hv ▸ hop
        · simp [hv] at h
    | _ => simp at h
  · intro h
    exact ⟨_, h, by simp⟩

theorem mem_calledBy : t ∈ calledBy w done ↔ .called w t ∈ done := by
  unfold calledBy
  rw [List.mem_filterMap]
  constructor
  · rintro ⟨op, hop, h⟩
    cases op with
    | called v u =>
        by_cases hv : v = w
        · obtain rfl : u = t := by simpa [hv] using h
          exact hv ▸ hop
        · simp [hv] at h
    | _ => simp at h
  · intro h
    exact ⟨_, h, by simp⟩

theorem mem_poppedTasks : t ∈ poppedTasks done ↔ ∃ w, .popped w t ∈ done := by
  unfold poppedTasks
  rw [List.mem_filterMap]
  constructor
  · rintro ⟨op, hop, h⟩
    cases op with
    | popped v u =>
        obtain rfl : u = t := by simpa using h
        exact ⟨v, hop⟩
    | _ => simp at h
  · rintro ⟨w, h⟩
    exact ⟨_, h, rfl⟩

/-- The account of one worker counts its operations on a task. -/
theorem count_calledBy (w t : Addr) (done : List Op) :
    (calledBy w done).count t = done.count (.called w t) := by
  induction done with
  | nil => rfl
  | cons op rest ih =>
      unfold calledBy at ih ⊢
      rw [List.filterMap_cons, List.count_cons, ← ih]
      cases op with
      | called v u => by_cases hv : v = w <;> by_cases hu : u = t <;> simp [hv, hu]
      | _ => simp

theorem poppedBy_sublist (w : Addr) (done : List Op) :
    (poppedBy w done).Sublist (poppedTasks done) := by
  induction done with
  | nil => exact .refl _
  | cons op rest ih =>
      unfold poppedBy poppedTasks at ih ⊢
      rw [List.filterMap_cons, List.filterMap_cons]
      cases op with
      | popped v u =>
          by_cases hv : v = w
          · simpa [hv] using ih
          · simpa [hv] using ih.cons u
      | _ => exact ih

/-- No task is taken by two workers, if none is taken twice. -/
theorem popper_unique (hnodup : (poppedTasks done).Nodup) (hv : .popped v t ∈ done)
    (hw : .popped w t ∈ done) : v = w := by
  obtain ⟨before, after, rfl⟩ := List.append_of_mem hv
  have hcons : poppedTasks (.popped v t :: after) = t :: poppedTasks after := rfl
  rw [poppedTasks_append, hcons, List.nodup_append] at hnodup
  obtain ⟨-, hafter, hbefore⟩ := hnodup
  rcases List.mem_append.mp hw with hw | hw
  · exact absurd rfl (hbefore t (mem_poppedTasks.mpr ⟨w, hw⟩) t (List.mem_cons_self ..))
  · rcases List.mem_cons.mp hw with hw | hw
    · exact (Op.popped.inj hw).1.symm
    · exact absurd (mem_poppedTasks.mpr ⟨w, hw⟩) (List.nodup_cons.mp hafter).1

/-! ## Calls -/

/-- A worker's move and its account: what was pending or is taken now is
    called now or pending afterwards. -/
theorem callbackMove_calls (hm : CallbackMove s w s' done) (v : Addr) :
    pending (s.pc v) ++ poppedBy v done = calledBy v done ++ pending (s'.pc v) := by
  by_cases hv : v = w
  · subst hv
    cases hm with
    | lock hpc _ => rcases hpc with hpc | hpc <;> simp [hpc, pending, poppedBy, calledBy]
    | listEmpty hpc _ | listFilled hpc _ | stopInWait hpc _ _ | noStopInWait hpc _ _ | wait hpc
    | stop hpc _ _ | noStop hpc _ _ | exit hpc | pop hpc _ | unlockTask hpc | call hpc =>
        simp [hpc, pending, poppedBy, calledBy]
  · have hne : ¬ w = v := fun h => hv h.symm
    cases hm <;> simp [setPc_pc_of_ne _ _ hv, poppedBy, calledBy, hne]

/-- A worker that is woken has nothing pending. -/
theorem StaysOrWoken.pending {pc pc' : WorkerPc} (h : StaysOrWoken pc pc') :
    pending pc' = pending pc := by
  rcases h with rfl | ⟨rfl, rfl⟩ <;> rfl

/-- So for every move. -/
theorem poolMove_calls [DecidableEq ι] (hm : PoolMove s s' done) (v : Addr) :
    pending (s.pc v) ++ poppedBy v done = calledBy v done ++ pending (s'.pc v) := by
  cases hm with
  | callback w hm => exact callbackMove_calls hm v
  | push p hm =>
      rw [(pushMove_pc hm v).pending]
      cases hm <;> simp [poppedBy, calledBy]
  | delete hm =>
      rw [(deleteMove_pc hm v).pending]
      cases hm <;> simp [poppedBy, calledBy]
  | @taskReturn w t left hpc =>
      by_cases hv : v = w
      · subst hv
        simp [hpc, pending, poppedBy, calledBy]
      · simp [setPc_pc_of_ne _ _ hv, poppedBy, calledBy]
  | @wakeUp w hpc =>
      by_cases hv : v = w
      · subst hv
        simp [hpc, pending, poppedBy, calledBy]
      · simp [setPc_pc_of_ne _ _ hv, poppedBy, calledBy]
  | callPush hpc => simp [Pool.setPusher, poppedBy, calledBy]
  | callDelete hpc => simp [poppedBy, calledBy]

/-- A task that a worker has to do with was taken off the list. -/
theorem poolMove_task [DecidableEq ι] (hm : PoolMove s s' done) (h : (s'.pc v).task = some t) :
    (s.pc v).task = some t ∨ t ∈ poppedTasks done := by
  have hstays : ∀ {pc' : WorkerPc}, StaysOrWoken (s.pc v) pc' → pc'.task = some t →
      (s.pc v).task = some t := by
    rintro _ (rfl | ⟨-, rfl⟩) ht
    · exact ht
    · cases ht
  cases hm with
  | callback w hm =>
      by_cases hv : v = w
      · subst hv
        cases hm with
        | pop hpc _ =>
            simp only [setPc_pc_self, WorkerPc.task] at h
            exact .inr (by simp [poppedTasks, h])
        | unlockTask hpc | call hpc =>
            simp only [setPc_pc_self, WorkerPc.task] at h
            exact .inl (by rw [hpc]; exact h)
        | _ => simp [WorkerPc.task] at h
      · rw [callbackMove_pc_of_ne hm hv] at h
        exact .inl h
  | push p hm => exact .inl (hstays (pushMove_pc hm v) h)
  | delete hm => exact .inl (hstays (deleteMove_pc hm v) h)
  | @taskReturn w u left hpc | @wakeUp w hpc =>
      by_cases hv : v = w
      · subst hv
        simp [WorkerPc.task] at h
      · rw [setPc_pc_of_ne _ _ hv] at h
        exact .inl h
  | callPush hpc | callDelete hpc => exact .inl h

/-! ## The list -/

/-- A move and the list: what is taken off it was in front, and what is put on
    it is put in front. -/
theorem poolMove_list [DecidableEq ι] (hm : PoolMove s s' done)
    (hl : s.tasks.IsList s.taskList xs) (hfresh : ∀ t ∈ insertedTasks done, t ∉ xs)
    (hrunning : ∀ w t, s.pc w = .running t → t ∉ xs) :
    ∃ xs', s'.tasks.IsList s'.taskList xs' ∧
      poppedTasks done ++ xs' = insertedTasks done ++ xs := by
  cases hm with
  | callback w hm =>
      cases hm with
      | @pop t hpc htop =>
          rw [htop] at hl
          obtain ⟨rest, rfl⟩ := hl.eq_cons
          refine ⟨rest, ?_, rfl⟩
          show (s.tasks.unlink s.taskList t).1.IsList (s.tasks.unlink s.taskList t).2 rest
          rw [htop]
          exact hl.unlink_head
      | _ => exact ⟨xs, hl, rfl⟩
  | push p hm =>
      cases hm with
      | @insert t hpc =>
          have ht : t ∉ xs := hfresh t (by simp [insertedTasks])
          exact ⟨t :: xs, hl.pushFront ht, rfl⟩
      | @signal t woken hpc hto => cases woken <;> exact ⟨xs, hl, rfl⟩
      | _ => exact ⟨xs, hl, rfl⟩
  | delete hm => cases hm <;> exact ⟨xs, hl, rfl⟩
  | @taskReturn w t left hpc =>
      refine ⟨xs, hl.congr fun x hx => ?_, rfl⟩
      exact Function.update_of_ne (ne_of_mem_of_not_mem hx (hrunning w t hpc)) ..
  | wakeUp _ | callPush _ | callDelete _ => exact ⟨xs, hl, rfl⟩

/-! ## No pop from an empty list -/

/-- A worker behind the loop that will go on to take a task has seen one, and
    it is still there. -/
structure ListSeen (s : Pool ι) (w : Addr) : Prop where
  testStop : s.pc w = .testStop → ∀ n, s.workers w = some n → n.stop ≠ 1 → s.taskList ≠ none
  pop : s.pc w = .pop → s.taskList ≠ none

/-- Nothing is asked of a worker elsewhere. -/
theorem ListSeen.of_pc (h₁ : s.pc w ≠ .testStop) (h₂ : s.pc w ≠ .pop) : ListSeen s w :=
  ⟨fun h => absurd h h₁, fun h => absurd h h₂⟩

/-- A move of someone else that does not empty the list. -/
theorem ListSeen.keep (h : ListSeen s w) (hpc : StaysOrWoken (s.pc w) (s'.pc w))
    (hlist : s.taskList ≠ none → s'.taskList ≠ none)
    (hstop : ∀ n', s'.workers w = some n' → n'.stop ≠ 1 →
      ∃ n, s.workers w = some n ∧ n.stop ≠ 1) : ListSeen s' w := by
  rcases hpc with hpc | ⟨-, hpc⟩
  · refine ⟨fun h₁ n' hn' hne => ?_, fun h₂ => hlist (h.pop (hpc ▸ h₂))⟩
    obtain ⟨n, hn, hstop⟩ := hstop n' hn' hne
    exact hlist (h.testStop (hpc ▸ h₁) n hn hstop)
  · exact .of_pc (by rw [hpc]; decide) (by rw [hpc]; decide)

theorem callbackMove_listSeen (hg : Guards s.mutex s.stance) (h : ∀ v, ListSeen s v)
    (hm : CallbackMove s w s' done) (v : Addr) : ListSeen s' v := by
  by_cases hv : v = w
  · subst hv
    cases hm with
    | listFilled _ htop => exact ⟨fun _ _ _ _ => by simp [Pool.setPc, htop], fun _ => by
        simp [Pool.setPc, htop]⟩
    | @stopInWait n _ hn hstop =>
        refine ⟨fun _ n' hn' hne => ?_, fun h₂ => ?_⟩
        · obtain rfl : n = n' := Option.some.inj (hn.symm.trans hn')
          exact absurd hstop hne
        · rw [setPc_pc_self] at h₂
          cases h₂
    | @noStop n hpc hn hstop =>
        have hlist := (h v).testStop hpc n hn hstop
        exact ⟨fun _ _ _ _ => hlist, fun _ => hlist⟩
    | _ => exact .of_pc (by simp) (by simp)
  · have hpc := callbackMove_pc_of_ne hm hv
    cases hm with
    | pop hw htop =>
        -- the worker that takes a task is the only one inside
        have hin : s.stance (.worker w) = .inside := by
          show (s.pc w).stance = .inside
          rw [hw]
          rfl
        have hout : ∀ pc : WorkerPc, pc.stance = .inside → s.pc v ≠ pc := by
          rintro pc hstance rfl
          have hvin : s.stance (.worker v) = .inside := hstance
          cases hg.unique hvin hin
          exact hv rfl
        exact .of_pc (by rw [hpc]; exact hout _ rfl) (by rw [hpc]; exact hout _ rfl)
    | _ => exact (h v).keep (.inl hpc) id fun n' hn' hne => ⟨n', hn', hne⟩

theorem poolMove_listSeen [DecidableEq ι] (hg : Guards s.mutex s.stance)
    (h : ∀ v, ListSeen s v) (hm : PoolMove s s' done) (v : Addr) : ListSeen s' v := by
  cases hm with
  | callback w hm => exact callbackMove_listSeen hg h hm v
  | push p hm =>
      refine (h v).keep (pushMove_pc hm v) ?_ ?_
      · cases hm with
        | insert _ => exact fun _ => by simp [Pool.setPusher]
        | @signal t woken _ _ => cases woken <;> exact id
        | _ => exact id
      · cases hm with
        | @signal t woken _ _ => cases woken <;> exact fun n' hn' hne => ⟨n', hn', hne⟩
        | _ => exact fun n' hn' hne => ⟨n', hn', hne⟩
  | delete hm =>
      refine (h v).keep (deleteMove_pc hm v) ?_ ?_
      · cases hm <;> exact id
      · cases hm with
        | @setStop a n hpc hn =>
            intro n' hn' hne
            by_cases hv : v = a
            · subst hv
              obtain rfl : { n with stop := 1 } = n' := by simpa using hn'
              exact absurd rfl hne
            · exact ⟨n', by simpa [Function.update_of_ne hv] using hn', hne⟩
        | @free a n hpc hn =>
            intro n' hn' hne
            by_cases hv : v = a
            · subst hv
              simp at hn'
            · exact ⟨n', by simpa [Function.update_of_ne hv] using hn', hne⟩
        | _ => exact fun n' hn' hne => ⟨n', hn', hne⟩
  | @taskReturn w t left hpc | @wakeUp w hpc =>
      by_cases hv : v = w
      · subst hv
        exact .of_pc (by simp) (by simp)
      · exact (h v).keep (.inl (setPc_pc_of_ne _ _ hv)) id fun n' hn' hne => ⟨n', hn', hne⟩
  | callPush _ | callDelete _ =>
      exact (h v).keep (.inl rfl) id fun n' hn' hne => ⟨n', hn', hne⟩

/-! ## The account of a run -/

/-- The state of the account after `done`. -/
structure TasksInv (done : List Op) (s : Pool ι) : Prop where
  guards : Guards s.mutex s.stance
  seen : ∀ w, ListSeen s w
  calls : ∀ w, poppedBy w done = calledBy w done ++ pending (s.pc w)
  taken : ∀ w t, (s.pc w).task = some t → t ∈ poppedTasks done
  queue : (insertedTasks done).Nodup → ∃ xs, s.tasks.IsList s.taskList xs ∧
    (xs ++ poppedTasks done).Perm (insertedTasks done)

/-- A pool that was just created has no tasks and no worker has one. -/
theorem Created.tasksInv (h : Created s ws) : TasksInv [] s := by
  have hpc : ∀ w, s.pc w = .lock ∨ s.pc w = .exited := fun w => by
    by_cases hw : w ∈ ws
    · exact .inl (h.atStart w hw)
    · exact .inr (h.others w hw)
  refine ⟨h.guards, fun w => ?_, fun w => ?_, fun w t ht => ?_, fun _ => ⟨[], ?_, .refl _⟩⟩
  · rcases hpc w with hw | hw <;> exact .of_pc (by rw [hw]; decide) (by rw [hw]; decide)
  · rcases hpc w with hw | hw <;> rw [hw] <;> rfl
  · rcases hpc w with hw | hw <;> rw [hw] at ht <;> cases ht
  · rw [h.taskList]
    exact Links.isList_nil _

open scoped List in
/-- Every move keeps the account. -/
theorem TasksInv.move [DecidableEq ι] (h : TasksInv past s) (hm : PoolMove s s' done) :
    TasksInv (past ++ done) s' where
  guards := poolMove_guards h.guards hm
  seen := poolMove_listSeen h.guards h.seen hm
  calls := fun w => by
    rw [poppedBy_append, calledBy_append, h.calls w, List.append_assoc, List.append_assoc,
      poolMove_calls hm w]
  taken := fun w t ht => by
    rw [poppedTasks_append, List.mem_append]
    rcases poolMove_task hm ht with ht | ht
    · exact .inl (h.taken w t ht)
    · exact .inr ht
  queue := fun hnodup => by
    rw [insertedTasks_append] at hnodup
    obtain ⟨hpast, -, hdisjoint⟩ := List.nodup_append.mp hnodup
    obtain ⟨xs, hl, hperm⟩ := h.queue hpast
    have hxs : ∀ t ∈ xs, t ∈ insertedTasks past := fun t ht =>
      hperm.subset (List.mem_append_left _ ht)
    have hrunning : ∀ w t, s.pc w = .running t → t ∉ xs := fun w t hw ht =>
      (List.nodup_append.mp (hperm.nodup_iff.mpr hpast)).2.2 t ht t
        (h.taken w t (by rw [hw]; rfl)) rfl
    obtain ⟨xs', hl', hlist⟩ := poolMove_list hm hl
      (fun t ht hmem => hdisjoint t (hxs t hmem) t ht rfl) hrunning
    refine ⟨xs', hl', ?_⟩
    rw [poppedTasks_append, insertedTasks_append]
    calc xs' ++ (poppedTasks past ++ poppedTasks done)
      _ ~ poppedTasks past ++ poppedTasks done ++ xs' := List.perm_append_comm
      _ = poppedTasks past ++ (insertedTasks done ++ xs) := by rw [List.append_assoc, hlist]
      _ ~ insertedTasks done ++ xs ++ poppedTasks past := List.perm_append_comm
      _ ~ insertedTasks past ++ insertedTasks done := by
          rw [List.append_assoc]
          exact (hperm.append_left _).trans List.perm_append_comm

theorem ops_append (hist₁ hist₂ : History ι) : ops (hist₁ ++ hist₂) = ops hist₁ ++ ops hist₂ :=
  List.flatMap_append ..

theorem tasksInv_of_run [DecidableEq ι] {hist : History ι} (h₀ : Created s₀ ws)
    (hrun : PoolRun s₀ hist s) : TasksInv (ops hist) s :=
  hrun.invariant (P := fun hist s => TasksInv (ops hist) s) h₀.tasksInv
    fun hist s e done s' hinv hstep => by
      rw [ops_append]
      have hdone : ops [(e, done)] = done := by simp [ops]
      rw [hdone]
      exact hinv.move (step_ok hstep)

/-! ## Conservation of tasks -/

/-- No task is lost, duplicated or run before it is pushed. -/
structure TasksConserved [DecidableEq ι] (done : List Op) (s : Pool ι) : Prop where
  /-- The tasks on the list and those taken off it are, each once, the tasks
      inserted. -/
  queue : ∃ xs, s.tasks.IsList s.taskList xs ∧ (xs ++ poppedTasks done).Nodup ∧
    (xs ++ poppedTasks done).Perm (insertedTasks done)
  /-- A task is taken by one worker only. -/
  onePopper : ∀ v w t, .popped v t ∈ done → .popped w t ∈ done → v = w
  /-- It has called the task once, or is just about to. -/
  calledOnce : ∀ w t, .popped w t ∈ done →
    done.count (.called w t) = 1 ∨ done.count (.called w t) = 0 ∧ pending (s.pc w) = [t]
  /-- A worker that is about to call a task is not kept from it. -/
  pendingCalled : ∀ w t, pending (s.pc w) = [t] → ∃ es hist s', (∀ e ∈ es, e = .callback w) ∧
    exec step s es = .ok (hist, s') ∧ .called w t ∈ ops hist
  /-- Workers call no other tasks. -/
  called : ∀ w t, .called w t ∈ done → .popped w t ∈ done
  /-- No worker is about to take a task from an empty list. -/
  noEmptyPop : ∀ w, s.pc w = .pop → s.taskList ≠ none

/-- Two steps of its own at most, and the pending task is called. -/
theorem pending_called [DecidableEq ι] (h : pending (s.pc w) = [t]) :
    ∃ es hist s', (∀ e ∈ es, e = Event.callback w) ∧ exec step s es = .ok (hist, s') ∧
      .called w t ∈ ops hist := by
  cases hpc : s.pc w with
  | call u =>
      obtain rfl : u = t := by simpa [hpc, pending] using h
      have hstep : step s (.callback w) = .ok (s.setPc w (.running u), [.called w u]) := by
        simp [step, callbackStep, hpc]
      exact ⟨[.callback w], _, _, by simp, exec_cons hstep rfl, by simp [ops]⟩
  | unlockTask u =>
      obtain rfl : u = t := by simpa [hpc, pending] using h
      have hstep : step s (.callback w) = .ok ({ s with mutex := none }.setPc w (.call u), []) := by
        simp [step, callbackStep, hpc]
      have hcall : step ({ s with mutex := none }.setPc w (.call u)) (.callback w) =
          .ok (({ s with mutex := none }.setPc w (.call u)).setPc w (.running u),
            [.called w u]) := by
        simp [step, callbackStep]
      exact ⟨[.callback w, .callback w], _, _, by simp, exec_cons hstep (exec_cons hcall rfl),
        by simp [ops]⟩
  | _ => simp [hpc, pending] at h

/-- In every run in which no task node is pushed twice, tasks are
    conserved. -/
theorem tasks_conserved [DecidableEq ι] {hist : History ι} (h₀ : Created s₀ ws)
    (hrun : PoolRun s₀ hist s) (hdistinct : (insertedTasks (ops hist)).Nodup) :
    TasksConserved (ops hist) s := by
  have hinv := tasksInv_of_run h₀ hrun
  obtain ⟨xs, hl, hperm⟩ := hinv.queue hdistinct
  have hnodup := hperm.nodup_iff.mpr hdistinct
  have hpopped : (poppedTasks (ops hist)).Nodup := (List.nodup_append.mp hnodup).2.1
  refine ⟨⟨xs, hl, hnodup, hperm⟩, fun v w t => popper_unique hpopped, fun w t hpop => ?_,
    fun w t => pending_called, fun w t hcall => ?_, fun w => (hinv.seen w).pop⟩
  · have hone : (poppedBy w (ops hist)).count t = 1 :=
      List.count_eq_one_of_mem (hpopped.sublist (poppedBy_sublist w _)) (mem_poppedBy.mpr hpop)
    rw [hinv.calls w, List.count_append, count_calledBy] at hone
    cases hpend : pending (s.pc w) with
    | nil =>
        rw [hpend, List.count_nil] at hone
        exact .inl hone
    | cons u rest =>
        obtain rfl : rest = [] := by
          cases hpc : s.pc w <;> simp [hpc, pending] at hpend <;> exact hpend.2
        rw [hpend] at hone
        by_cases hu : u = t
        · subst hu
          exact .inr ⟨by simpa using hone, rfl⟩
        · exact .inl (by simpa [hu] using hone)
  · rw [← mem_poppedBy, hinv.calls w]
    exact List.mem_append_left _ (mem_calledBy.mpr hcall)

/-- One worker; a task is pushed, taken and called. -/
def pushAndCall : List (Event Unit) :=
  [.callPush () 5, .push () none, .push () none, .push () none, .push () none,
    .callback 1, .callback 1, .callback 1, .callback 1, .callback 1, .callback 1]

theorem tasks_conserved_called : ∃ (hist : History Unit) (s : Pool Unit),
    Created (Pool.create [1] : Pool Unit) [1] ∧ PoolRun (Pool.create [1]) hist s ∧
    insertedTasks (ops hist) = [5] ∧ .called 1 5 ∈ ops hist ∧ TasksConserved (ops hist) s := by
  obtain ⟨hist, s, hexec, hP⟩ := exec_of_execsTo (f := step) (s := Pool.create [1])
    (l := pushAndCall)
    (P := fun hist _ => decide (insertedTasks (ops hist) = [5] ∧ .called 1 5 ∈ ops hist))
    (by decide)
  obtain ⟨hins, hcalled⟩ := of_decide_eq_true hP
  have hcreated : Created (Pool.create [1] : Pool Unit) [1] := created_create (by decide)
  have hrun := run_of_exec hexec
  refine ⟨hist, s, hcreated, hrun, hins, hcalled, tasks_conserved hcreated hrun ?_⟩
  rw [hins]
  exact List.nodup_singleton 5

end LinuxLearning.ThreadPool
