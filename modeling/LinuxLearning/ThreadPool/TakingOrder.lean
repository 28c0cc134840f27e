/-
  LinuxLearning.ThreadPool.TakingOrder

  The order in which the workers take the tasks.  `nthreadpool_push` inserts
  at the head of `task_list`, and the workers take from the head, so a task is
  overtaken as soon as a worker takes one from a list of two.
-/

import LinuxLearning.ThreadPool.TaskQueue

namespace LinuxLearning.ThreadPool

open Lib

variable {ι : Type} {s s' s₀ : Pool ι} {w t : Addr} {e : Event ι} {done past : List Op}
  {ws xs : List Addr}

/-! ## The order -/

/-- Tasks are taken as a queue gives them out. -/
structure FirstInFirstOut (done : List Op) : Prop where
  /-- The tasks that were taken are those that were inserted first, in that
      order. -/
  inOrder : poppedTasks done <+: insertedTasks done
  /-- A task that was inserted behind `i` others waits for these only. -/
  waits : ∀ i t, (insertedTasks done)[i]? = some t → i < (poppedTasks done).length →
    (poppedTasks done)[i]? = some t

theorem firstInFirstOut_iff_inOrder :
    FirstInFirstOut done ↔ poppedTasks done <+: insertedTasks done := by
  refine ⟨fun h => h.inOrder, fun h => ⟨h, fun i t ht hi => ?_⟩⟩
  rw [← ht, List.getElem?_eq_getElem hi, List.IsPrefix.getElem h hi]
  exact (List.getElem?_eq_getElem _).symm

/-- No task is on the list, and no worker has one. -/
structure NoTasks (s : Pool ι) : Prop where
  taskList : s.taskList = none
  pc : ∀ w, (s.pc w).task = none

theorem Created.noTasks (h : Created s ws) : NoTasks s where
  taskList := h.taskList
  pc := fun w => by
    by_cases hw : w ∈ ws
    · rw [h.atStart w hw]
      rfl
    · rw [h.others w hw]
      rfl

/-- The caller of `nthreadpool_push` puts in a node that is not in use: it is
    not on the list, and no worker is busy with it. -/
def FreshPush (s : Pool ι) (e : Event ι) : Prop :=
  ∀ p woken t, e = .push p woken → s.pusher p = .insert t →
    (∀ xs, s.tasks.IsList s.taskList xs → t ∉ xs) ∧ ∀ w, (s.pc w).task ≠ some t

/-- A worker that takes a task finds no other one on the list. -/
def TakesOnly (s : Pool ι) : Event ι → Prop
  | .callback w => s.pc w = .pop → ∀ t ∈ s.taskList, (s.tasks t).next = none
  | _ => True

instance (s : Pool ι) : (e : Event ι) → Decidable (TakesOnly s e)
  | .callback w =>
      inferInstanceAs (Decidable (s.pc w = .pop → ∀ t ∈ s.taskList, (s.tasks t).next = none))
  | .taskReturn _ _ | .wakeUp _ | .callPush _ _ | .push _ _ | .callDelete | .delete _ =>
      inferInstanceAs (Decidable True)

/-! ## What a step inserts and takes -/

theorem mem_insertedTasks : t ∈ insertedTasks done ↔ .inserted t ∈ done := by
  unfold insertedTasks
  rw [List.mem_filterMap]
  constructor
  · rintro ⟨op, hop, heq⟩
    cases op with
    | inserted u =>
        obtain rfl : u = t := by simpa using heq
        exact hop
    | _ => simp at heq
  · intro h
    exact ⟨_, h, rfl⟩

theorem inserted_of_step [DecidableEq ι] (h : step s e = .ok (s', done))
    (ht : t ∈ insertedTasks done) : ∃ p woken, e = .push p woken ∧ s.pusher p = .insert t := by
  have hmem := mem_insertedTasks.mp ht
  cases e with
  | callback w =>
      have hm := callbackStep_ok h
      cases hm <;> simp at hmem
  | push p woken =>
      have hm := pushStep_ok h
      cases hm with
      | @insert u hpc =>
          obtain rfl : t = u := by simpa using hmem
          exact ⟨p, woken, rfl, hpc⟩
      | _ => simp at hmem
  | delete garbage =>
      have hm := deleteStep_ok h
      cases hm <;> simp at hmem
  | taskReturn w left =>
      simp only [step] at h
      split at h <;> cases h
      simp at hmem
  | wakeUp w | callPush p u | callDelete =>
      simp only [step] at h
      split at h <;> cases h
      simp at hmem

/-- A step that takes no task, or the step that takes the first one. -/
theorem popped_of_step [DecidableEq ι] (h : step s e = .ok (s', done)) :
    poppedTasks done = [] ∧ (insertedTasks done).length ≤ 1 ∧ TakesOnly s e ∨
      ∃ w t, e = .callback w ∧ s.pc w = .pop ∧ s.taskList = some t ∧ poppedTasks done = [t] ∧
        insertedTasks done = [] := by
  cases e with
  | callback w =>
      have hm := callbackStep_ok h
      -- elsewhere the worker is not about to take a task
      have hother : ∀ {pc : WorkerPc}, s.pc w = pc → pc ≠ .pop → TakesOnly s (.callback w) :=
        fun hpc hne hpop => absurd (hpc.symm.trans hpop) hne
      cases hm with
      | pop hpc htop => exact .inr ⟨w, _, rfl, hpc, htop, rfl, rfl⟩
      | lock hpc _ =>
          rcases hpc with hpc | hpc <;>
            exact .inl ⟨rfl, by simp [insertedTasks], hother hpc (by simp)⟩
      | listEmpty hpc _ | listFilled hpc _ | stopInWait hpc _ _ | noStopInWait hpc _ _ | wait hpc
      | stop hpc _ _ | noStop hpc _ _ | exit hpc | unlockTask hpc | call hpc =>
          exact .inl ⟨rfl, by simp [insertedTasks], hother hpc (by simp)⟩
  | push p woken =>
      have hm := pushStep_ok h
      cases hm <;> exact .inl ⟨rfl, by simp [insertedTasks], trivial⟩
  | delete garbage =>
      have hm := deleteStep_ok h
      cases hm <;> exact .inl ⟨rfl, by simp [insertedTasks], trivial⟩
  | taskReturn w left | wakeUp w | callPush p u | callDelete =>
      simp only [step] at h
      split at h <;> cases h
      exact .inl ⟨rfl, by simp [insertedTasks], trivial⟩

/-! ## The list and the order -/

/-- The tasks that were inserted and not taken are on the list; in the reverse
    order, as long as tasks were taken in order. -/
structure Backlog (done : List Op) (s : Pool ι) (xs : List Addr) : Prop where
  list : s.tasks.IsList s.taskList xs
  apart : ∀ w t, (s.pc w).task = some t → t ∉ xs
  count : (poppedTasks done).length + xs.length = (insertedTasks done).length
  reversed : poppedTasks done <+: insertedTasks done →
    insertedTasks done = poppedTasks done ++ xs.reverse

theorem NoTasks.backlog (h : NoTasks s) : Backlog [] s [] where
  list := by
    rw [h.taskList]
    exact Links.isList_nil _
  apart := fun w t ht => by
    rw [h.pc w] at ht
    cases ht
  count := rfl
  reversed := fun _ => rfl

/-- A task that is taken from a backlog of several is not the oldest one. -/
theorem Backlog.prefix_snoc_iff {rest : List Addr} (h : Backlog past s (t :: rest)) :
    poppedTasks past ++ [t] <+: insertedTasks past ↔
      poppedTasks past <+: insertedTasks past ∧ rest = [] := by
  constructor
  · intro htaken
    have hbefore := (List.prefix_append _ _).trans htaken
    have heq := h.reversed hbefore
    rw [heq, List.prefix_append_right_inj, List.reverse_cons] at htaken
    refine ⟨hbefore, ?_⟩
    by_contra hrest
    -- the oldest task is in the rest, so it is not the one that is taken
    obtain ⟨oldest, others, hoth⟩ := List.exists_cons_of_ne_nil
      (fun hnil : rest.reverse = [] => hrest (List.reverse_eq_nil_iff.mp hnil))
    rw [hoth, List.cons_append, List.cons_prefix_cons] at htaken
    have hmem : t ∈ rest := by
      rw [← List.mem_reverse, hoth, htaken.1]
      exact List.mem_cons_self ..
    exact (List.nodup_cons.mp h.list.nodup).1 hmem
  · rintro ⟨hbefore, rfl⟩
    rw [h.reversed hbefore]
    exact List.prefix_rfl

/-- The backlog while nothing is taken: what is put in comes last. -/
theorem Backlog.keep {xs' : List Addr} (h : Backlog past s xs)
    (hl : s'.tasks.IsList s'.taskList xs') (hapart : ∀ w t, (s'.pc w).task = some t → t ∉ xs')
    (hlist : xs' = insertedTasks done ++ xs) (hone : (insertedTasks done).length ≤ 1)
    (hnone : poppedTasks done = []) :
    Backlog (past ++ done) s' xs' ∧
      (poppedTasks (past ++ done) <+: insertedTasks (past ++ done) ↔
        poppedTasks past <+: insertedTasks past) := by
  subst hlist
  have hcount := h.count
  have hpopped : poppedTasks (past ++ done) = poppedTasks past := by
    rw [poppedTasks_append, hnone, List.append_nil]
  have hreverse : (insertedTasks done).reverse = insertedTasks done := by
    rcases hins : insertedTasks done with _ | ⟨t, _ | ⟨u, rest⟩⟩
    · rfl
    · rfl
    · rw [hins] at hone
      simp at hone
  have hiff : poppedTasks (past ++ done) <+: insertedTasks (past ++ done) ↔
      poppedTasks past <+: insertedTasks past := by
    rw [hpopped, insertedTasks_append]
    refine ⟨fun hpre => ?_, fun hpre => hpre.trans (List.prefix_append _ _)⟩
    exact List.prefix_of_prefix_length_le hpre (List.prefix_append _ _) (by omega)
  refine ⟨⟨hl, hapart, ?_, fun hpre => ?_⟩, hiff⟩
  · rw [hpopped, insertedTasks_append, List.length_append, List.length_append]
    omega
  · rw [hpopped, insertedTasks_append, h.reversed (hiff.mp hpre), List.reverse_append, hreverse,
      List.append_assoc]

/-- The backlog when its first task is taken. -/
theorem Backlog.take {rest : List Addr} (h : Backlog past s (t :: rest))
    (hl : s'.tasks.IsList s'.taskList rest) (hapart : ∀ w t, (s'.pc w).task = some t → t ∉ rest)
    (hpop : poppedTasks done = [t]) (hins : insertedTasks done = []) :
    Backlog (past ++ done) s' rest ∧
      (poppedTasks (past ++ done) <+: insertedTasks (past ++ done) ↔
        poppedTasks past <+: insertedTasks past ∧ rest = []) := by
  have hpopped : poppedTasks (past ++ done) = poppedTasks past ++ [t] := by
    rw [poppedTasks_append, hpop]
  have hinserted : insertedTasks (past ++ done) = insertedTasks past := by
    rw [insertedTasks_append, hins, List.append_nil]
  have hiff := h.prefix_snoc_iff
  refine ⟨⟨hl, hapart, ?_, fun hpre => ?_⟩, by rw [hpopped, hinserted, hiff]⟩
  · have hcount := h.count
    rw [List.length_cons] at hcount
    rw [hpopped, hinserted, List.length_append, List.length_singleton]
    omega
  · rw [hpopped, hinserted] at hpre ⊢
    obtain ⟨hbefore, rfl⟩ := hiff.mp hpre
    rw [h.reversed hbefore]
    simp

/-- A step from a backlog. -/
theorem Backlog.step [DecidableEq ι] (h : Backlog past s xs) (hfresh : FreshPush s e)
    (hstep : step s e = .ok (s', done)) :
    (∃ xs', Backlog (past ++ done) s' xs') ∧
      (poppedTasks (past ++ done) <+: insertedTasks (past ++ done) ↔
        poppedTasks past <+: insertedTasks past ∧ TakesOnly s e) := by
  have hm := step_ok hstep
  have hnew : ∀ t ∈ insertedTasks done, t ∉ xs ∧ ∀ w, (s.pc w).task ≠ some t := by
    intro t ht
    obtain ⟨p, woken, he, hpc⟩ := inserted_of_step hstep ht
    obtain ⟨hlist, hbusy⟩ := hfresh p woken t he hpc
    exact ⟨hlist xs h.list, hbusy⟩
  have hrunning : ∀ w t, s.pc w = .running t → t ∉ xs := fun w t hw =>
    h.apart w t (by rw [hw]; rfl)
  obtain ⟨xs', hl', hlist⟩ := poolMove_list hm h.list (fun t ht => (hnew t ht).1) hrunning
  rcases popped_of_step hstep with ⟨hnone, hone, honly⟩ | ⟨v, u, rfl, hpc, htop, hpop, hins⟩
  · rw [hnone, List.nil_append] at hlist
    have hapart : ∀ w t, (s'.pc w).task = some t → t ∉ xs' := by
      intro w t ht hmem
      have hheld : (s.pc w).task = some t :=
        (poolMove_task hm ht).resolve_right (by rw [hnone]; exact List.not_mem_nil)
      rw [hlist] at hmem
      rcases List.mem_append.mp hmem with hin | hin
      · exact (hnew t hin).2 w hheld
      · exact h.apart w t hheld hin
    obtain ⟨hback, hiff⟩ := h.keep hl' hapart hlist hone hnone
    exact ⟨⟨xs', hback⟩, by rw [hiff]; exact (and_iff_left honly).symm⟩
  · rw [hpop, hins, List.nil_append, List.singleton_append] at hlist
    subst hlist
    have hapart : ∀ w t, (s'.pc w).task = some t → t ∉ xs' := by
      intro w t ht hmem
      rcases poolMove_task hm ht with ht | ht
      · exact h.apart w t ht (List.mem_cons_of_mem _ hmem)
      · obtain rfl : t = u := by simpa [hpop] using ht
        exact (List.nodup_cons.mp h.list.nodup).1 hmem
    have hchain : s.tasks.Chain none s.taskList ([] ++ u :: xs') := h.list.chain
    have hnext : (s.tasks u).next = xs'.head? := hchain.next
    have honly : TakesOnly s (.callback v) ↔ xs' = [] := by
      rw [← List.head?_eq_none_iff, ← hnext]
      refine ⟨fun honly => honly hpc u htop, fun hnone _ u' hu' => ?_⟩
      obtain rfl : u = u' := Option.some.inj (htop.symm.trans hu')
      exact hnone
    obtain ⟨hback, hiff⟩ := h.take hl' hapart hpop hins
    exact ⟨⟨xs', hback⟩, by rw [hiff, honly]⟩

/-! ## Every run -/

theorem ops_snoc (hist : History ι) (e : Event ι) (done : List Op) :
    ops (hist ++ [(e, done)]) = ops hist ++ done := by
  simp [ops]

/-- In every run, tasks are taken in the order in which they were inserted if
    and only if no worker takes one while there is another on the list. -/
theorem firstInFirstOut_iff [DecidableEq ι] {hist : History ι} (h₀ : NoTasks s₀)
    (hrun : Run (Guarded FreshPush (StepsOf step)) s₀ hist s) :
    FirstInFirstOut (ops hist) ↔
      Run (Guarded TakesOnly (Guarded FreshPush (StepsOf step))) s₀ hist s := by
  rw [firstInFirstOut_iff_inOrder]
  refine hrun.iff_guarded_history (I := fun hist s => ∃ xs, Backlog (ops hist) s xs)
    (P := fun hist _ => poppedTasks (ops hist) <+: insertedTasks (ops hist))
    ⟨[], h₀.backlog⟩ List.prefix_rfl ?_ ?_
  · rintro hist s e done s' ⟨xs, hback⟩ ⟨hfresh, hstep⟩
    rw [ops_snoc]
    exact (hback.step hfresh hstep).1
  · rintro hist s e done s' ⟨xs, hback⟩ ⟨hfresh, hstep⟩
    rw [ops_snoc]
    exact (hback.step hfresh hstep).2

/-- Nodes that are all different are fresh. -/
theorem freshPush_of_nodup [DecidableEq ι] {hist : History ι} {C : Pool ι → Event ι → Prop}
    (h₀ : Created s₀ ws) (hrun : Run (Guarded C (StepsOf step)) s₀ hist s)
    (hnodup : (insertedTasks (ops hist)).Nodup) :
    Run (Guarded C (Guarded FreshPush (StepsOf step))) s₀ hist s := by
  induction hrun with
  | start => exact .start
  | @step hist s e done s' hrun hR ih =>
      rw [ops_snoc, insertedTasks_append] at hnodup
      obtain ⟨hpast, -, hapart⟩ := List.nodup_append.mp hnodup
      refine (ih hpast).step ⟨hR.1, ?_, hR.2⟩
      rintro p woken t rfl hpc
      have hinv := tasksInv_of_run h₀ hrun.of_guarded
      obtain ⟨xs, hl, hperm⟩ := hinv.queue hpast
      have hins : t ∈ insertedTasks done := by
        have hstep : .ok (s', done) = pushStep s p woken := hR.2.symm
        simp only [pushStep, hpc, Except.ok.injEq, Prod.mk.injEq] at hstep
        rw [hstep.2]
        exact List.mem_singleton_self t
      have hnew : t ∉ insertedTasks (ops hist) := fun hmem => hapart t hmem t hins rfl
      constructor
      · intro ys hys hmem
        rw [← hl.unique hys] at hmem
        exact hnew (hperm.subset (List.mem_append_left _ hmem))
      · exact fun w hw => hnew (hperm.subset (List.mem_append_right _ (hinv.taken w t hw)))

/-- One worker; the second task is pushed when the first has been called. -/
def pushOneByOne : List (Event Unit) :=
  pushAndCall ++ [.taskReturn 1 { next := none, prev := none }, .callPush () 6, .push () none,
    .push () none, .push () none, .push () none, .callback 1, .callback 1, .callback 1,
    .callback 1]

theorem firstInFirstOut_of_oneByOne : ∃ (hist : History Unit) (s : Pool Unit),
    poppedTasks (ops hist) = [5, 6] ∧ Run (Guarded FreshPush (StepsOf step)) (.create [1]) hist s ∧
      FirstInFirstOut (ops hist) := by
  obtain ⟨hist, s, hexec, hP⟩ := exec_of_execsTo
    (f := guardStep TakesOnly Fault.blocked (@step Unit _)) (s := Pool.create [1])
    (l := pushOneByOne)
    (P := fun hist _ => decide (insertedTasks (ops hist) = [5, 6] ∧
      poppedTasks (ops hist) = [5, 6])) (by decide)
  obtain ⟨hins, hpop⟩ := of_decide_eq_true hP
  have hcreated : Created (Pool.create [1] : Pool Unit) [1] := created_create (by decide)
  have hrun := freshPush_of_nodup hcreated (guarded_of_exec hexec) (by rw [hins]; decide)
  exact ⟨hist, s, hpop, hrun.of_guarded,
    (firstInFirstOut_iff hcreated.noTasks hrun.of_guarded).mpr hrun⟩

/-- One worker; two tasks are pushed before it comes to take one. -/
def pushTwoPopOne : List (Event Unit) :=
  [.callPush () 5, .push () none, .push () none, .push () none, .push () none,
    .callPush () 6, .push () none, .push () none, .push () none, .push () none,
    .callback 1, .callback 1, .callback 1, .callback 1]

/-- The second task overtakes the first. -/
theorem second_task_first : ∃ (hist : History Unit) (s : Pool Unit),
    Run (Guarded FreshPush (StepsOf step)) (.create [1]) hist s ∧
      insertedTasks (ops hist) = [5, 6] ∧ poppedTasks (ops hist) = [6] ∧
      ¬ FirstInFirstOut (ops hist) := by
  obtain ⟨hist, s, hexec, hP⟩ := exec_of_execsTo (f := step) (s := Pool.create [1])
    (l := pushTwoPopOne)
    (P := fun hist _ => decide (insertedTasks (ops hist) = [5, 6] ∧
      poppedTasks (ops hist) = [6])) (by decide)
  obtain ⟨hins, hpop⟩ := of_decide_eq_true hP
  have hrun : Run (Guarded (fun _ _ => True) (StepsOf step)) (.create [1]) hist s :=
    (run_of_exec hexec).mono fun _ _ _ _ h => ⟨trivial, h⟩
  have hfresh := freshPush_of_nodup (created_create (by decide)) hrun (by rw [hins]; decide)
  refine ⟨hist, s, hfresh.of_guarded, hins, hpop, fun h => ?_⟩
  have hprefix := h.inOrder
  rw [hins, hpop] at hprefix
  exact absurd hprefix (by decide)

end LinuxLearning.ThreadPool
