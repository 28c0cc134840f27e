/-
  LinuxLearning.ThreadPool.Deletion

  What `nthreadpool_delete` has done when it returns.

  Its last loop frees a node and then reads that node's `next`, so with any
  worker in the pool it reads freed memory.  A worker that finds its stop flag
  set leaves even if there are tasks on the list, so tasks pushed before the
  call need not be executed.
-/

import LinuxLearning.ThreadPool.Shutdown

namespace LinuxLearning.ThreadPool

open Lib

variable {ι : Type} {s s' s₀ : Pool ι} {w v a t : Addr} {p : ι} {done before : List Op}
  {ws : List Addr}

/-- The tasks for which `nthreadpool_push` had returned 0 when
    `nthreadpool_delete` was called. -/
def pushedBefore (done : List Op) : List Addr :=
  (done.takeWhile fun op => decide (op ≠ .deleteCalled)).filterMap fun
    | .pushed t => some t
    | _ => none

/-- What `nthreadpool_delete` is meant to have done when it returns. -/
structure DeleteComplete (ws : List Addr) (done : List Op) (s : Pool ι) : Prop where
  joined : ∀ w ∈ ws, done.count (.joined w) = 1
  freed : ∀ w ∈ ws, done.count (.freed w) = 1
  noReadFreed : ∀ w, .readFreed w ∉ done
  workerList : s.workerList = none
  executed : ∀ t ∈ pushedBefore done, ∃ w, .executed w t ∈ done

/-! ## The node that is read -/

/-- As long as no freed node was read, `nthreadpool_delete` has not got past
    the first worker. -/
def FirstNode (ws : List Addr) (s : Pool ι) : Prop :=
  match s.deleter with
  | .away | .setStop _ | .lock | .broadcast | .unlock => s.workerList = ws.head?
  | .join cur => cur = ws.head?
  | .free _ => True
  | .next a => s.workers a = none
  | .returned => ws = []

theorem poolMove_firstNode [DecidableEq ι] (h : FirstNode ws s) (hm : PoolMove s s' done)
    (hread : ∀ w, .readFreed w ∉ done) : FirstNode ws s' := by
  have hkeep : SameNodes s s' → FirstNode ws s' := fun hsame => by
    unfold FirstNode at h ⊢
    rw [hsame.deleter, hsame.workers, hsame.workerList]
    exact h
  cases hm with
  | callback w hm => exact hkeep (callbackMove_nodes hm)
  | push p hm => exact hkeep (pushMove_nodes hm)
  | taskReturn _ | wakeUp _ | callPush _ => exact hkeep ⟨rfl, rfl, rfl⟩
  | callDelete hd =>
      simp only [FirstNode, hd] at h
      exact h
  | delete hm =>
      cases hm with
      | stopsSet hd | setStop hd _ | lock hd _ | broadcast hd | unlock hd =>
          simp only [FirstNode, hd] at h
          exact h
      | done hd =>
          simp only [FirstNode, hd] at h
          exact List.head?_eq_none_iff.mp h.symm
      | join hd _ _ => trivial
      | free hd _ => exact Function.update_self ..
      | next hd hn =>
          simp only [FirstNode, hd] at h
          cases h.symm.trans hn
      | nextFreed hd _ => exact absurd (List.mem_singleton.mpr rfl) (hread _)

theorem Created.firstNode (h : Created s ws) : FirstNode ws s := by
  unfold FirstNode
  rw [h.deleter]
  exact h.workers.head

/-! ## A pool without workers -/

/-- Nobody executes tasks but the workers of the pool. -/
theorem poolMove_executed [DecidableEq ι] (h : NodesInv s ws) (hm : PoolMove s s' done)
    (hex : .executed w t ∈ done) : w ∈ ws := by
  cases hm with
  | callback v hm => cases hm <;> simp at hex
  | push p hm => cases hm <;> simp at hex
  | delete hm => cases hm <;> simp at hex
  | taskReturn hpc =>
      obtain ⟨rfl, rfl⟩ : w = _ ∧ t = _ := by simpa using hex
      exact (h.node w (by rw [hpc]; simp)).1
  | wakeUp _ | callPush _ | callDelete _ => simp at hex

/-- With no workers the walks of `nthreadpool_delete` are over at once. -/
def NoNode (s : Pool ι) : Prop :=
  s.workerList = none ∧
  match s.deleter with
  | .setStop (some _) | .join (some _) | .free _ | .next _ => False
  | _ => True

theorem poolMove_noNode [DecidableEq ι] (h : NoNode s) (hm : PoolMove s s' done) :
    NoNode s' ∧ ∀ w, .readFreed w ∉ done := by
  have hkeep : SameNodes s s' → NoNode s' := fun hsame => by
    unfold NoNode at h ⊢
    rw [hsame.deleter, hsame.workerList]
    exact h
  cases hm with
  | callback w hm => exact ⟨hkeep (callbackMove_nodes hm), fun v hv => by cases hm <;> simp at hv⟩
  | push p hm => exact ⟨hkeep (pushMove_nodes hm), fun v hv => by cases hm <;> simp at hv⟩
  | taskReturn _ | wakeUp _ | callPush _ => exact ⟨hkeep ⟨rfl, rfl, rfl⟩, fun v hv => by simp at hv⟩
  | callDelete hd =>
      refine ⟨⟨h.1, ?_⟩, fun v hv => by simp at hv⟩
      rw [h.1]
      trivial
  | delete hm =>
      cases hm with
      | stopsSet hd | lock hd _ | broadcast hd => exact ⟨⟨h.1, trivial⟩, fun v hv => by simp at hv⟩
      | done hd => exact ⟨⟨rfl, trivial⟩, fun v hv => by simp at hv⟩
      | unlock hd =>
          refine ⟨⟨h.1, ?_⟩, fun v hv => by simp at hv⟩
          rw [h.1]
          trivial
      | setStop hd _ | join hd _ _ | free hd _ | next hd _ | nextFreed hd _ =>
          simp [NoNode, hd] at h

/-! ## When the deletion is complete -/

/-- What the run has come to, for `nthreadpool_delete`. -/
structure DeletionInv (ws : List Addr) (done : List Op) (s : Pool ι) : Prop where
  nodes : NodesInv s ws
  firstNode : (∀ w, .readFreed w ∉ done) → FirstNode ws s
  executed : ∀ w t, .executed w t ∈ done → w ∈ ws
  noNode : ws = [] → NoNode s ∧ ∀ w, .readFreed w ∉ done
  returned : .deleteReturned ∈ done → s.deleter = .returned

/-- `nthreadpool_delete` returns in one place and does not start again. -/
theorem poolMove_returned [DecidableEq ι] (hm : PoolMove s s' done)
    (h : s.deleter = .returned ∨ .deleteReturned ∈ done) : s'.deleter = .returned := by
  cases hm with
  | callback w hm =>
      rw [(callbackMove_nodes hm).deleter]
      exact h.resolve_right fun hmem => by cases hm <;> simp at hmem
  | push p hm =>
      rw [(pushMove_nodes hm).deleter]
      exact h.resolve_right fun hmem => by cases hm <;> simp at hmem
  | taskReturn _ | wakeUp _ | callPush _ => exact h.resolve_right (by simp)
  | callDelete hd => simp [hd] at h
  | delete hm =>
      cases hm with
      | done hd => rfl
      | stopsSet hd | setStop hd _ | lock hd _ | broadcast hd | unlock hd | join hd _ _
      | free hd _ | next hd _ | nextFreed hd _ => simp [hd] at h

theorem deletionInv_of_run [DecidableEq ι] {hist : History ι} (h₀ : Created s₀ ws)
    (hrun : PoolRun s₀ hist s) : DeletionInv ws (ops hist) s := by
  refine hrun.invariant (P := fun hist s => DeletionInv ws (ops hist) s) ?_ ?_
  · refine ⟨h₀.nodesInv, fun _ => h₀.firstNode, fun w t hmem => (by cases hmem), ?_,
      fun hmem => (by cases hmem)⟩
    rintro rfl
    refine ⟨⟨h₀.workers.head, ?_⟩, fun w hmem => by cases hmem⟩
    rw [h₀.deleter]
    trivial
  · intro hist s e done s' hinv hstep
    have hm := step_ok hstep
    have hsnoc : ops (hist ++ [(e, done)]) = ops hist ++ done := by simp [ops]
    rw [hsnoc]
    refine ⟨poolMove_nodesInv hinv.nodes hm, fun hread => ?_, fun w t hmem => ?_, fun hws => ?_,
      fun hmem => poolMove_returned hm ((List.mem_append.mp hmem).imp_left hinv.returned)⟩
    · exact poolMove_firstNode
        (hinv.firstNode fun w hmem => hread w (List.mem_append_left _ hmem)) hm
        fun w hmem => hread w (List.mem_append_right _ hmem)
    · rcases List.mem_append.mp hmem with hmem | hmem
      · exact hinv.executed w t hmem
      · exact poolMove_executed hinv.nodes hm hmem
    · obtain ⟨hnode, hread⟩ := hinv.noNode hws
      obtain ⟨hnode', hread'⟩ := poolMove_noNode hnode hm
      exact ⟨hnode', fun w hmem =>
        (List.mem_append.mp hmem).elim (hread w) (hread' w)⟩

/-- `nthreadpool_delete` has done all it is meant to do, in a run in which it
    returns, if and only if the pool had no worker and no task had been pushed
    before the call. -/
theorem delete_complete_iff [DecidableEq ι] {hist : History ι} (h₀ : Created s₀ ws)
    (hrun : PoolRun s₀ hist s) (hret : .deleteReturned ∈ ops hist) :
    DeleteComplete ws (ops hist) s ↔ ws = [] ∧ pushedBefore (ops hist) = [] := by
  have hinv := deletionInv_of_run h₀ hrun
  constructor
  · intro h
    obtain rfl : ws = [] := by
      have hfirst := hinv.firstNode h.noReadFreed
      rw [FirstNode, hinv.returned hret] at hfirst
      exact hfirst
    refine ⟨rfl, List.eq_nil_iff_forall_not_mem.mpr fun t ht => ?_⟩
    obtain ⟨w, hw⟩ := h.executed t ht
    cases hinv.executed w t hw
  · rintro ⟨rfl, hbefore⟩
    obtain ⟨hnode, hread⟩ := hinv.noNode rfl
    refine ⟨fun w hw => (by cases hw), fun w hw => (by cases hw), hread, hnode.1, ?_⟩
    rw [hbefore]
    intro t ht
    cases ht

/-- The pool that `nthreadpool_delete` leaves has no workers; a second call
    completes. -/
theorem delete_complete_iff_empty : ∃ (hist : History Unit) (s : Pool Unit),
    DeleteComplete [] (ops hist) s := by
  obtain ⟨hist, s, hexec, hP⟩ := exec_of_execsTo (f := step (ι := Unit))
    (s := Pool.create [])
    (l := [.callDelete, .delete none, .delete none, .delete none, .delete none, .delete none])
    (P := fun hist _ =>
      decide (.deleteReturned ∈ ops hist ∧ pushedBefore (ops hist) = [])) (by decide)
  obtain ⟨hret, hbefore⟩ := of_decide_eq_true hP
  exact ⟨hist, s, (delete_complete_iff (created_create (by decide)) (run_of_exec hexec) hret).mpr
    ⟨rfl, hbefore⟩⟩

/-- One worker; a task is pushed, and the pool is deleted before the worker
    gets to it. -/
def deleteWithTask : List (Event Unit) :=
  [.callPush () 5, .push () none, .push () none, .push () none, .push () none,
    .callDelete, .delete none, .delete none, .delete none, .delete none, .delete none,
    .callback 1, .callback 1, .callback 1, .callback 1,
    .delete none, .delete none, .delete none, .delete none]

/-- The deletion returns, has read the worker's node after freeing it, and the
    task is never executed. -/
theorem delete_incomplete : ∃ (hist : History Unit) (s : Pool Unit),
    PoolRun (Pool.create [1]) hist s ∧ .deleteReturned ∈ ops hist ∧
    .readFreed 1 ∈ ops hist ∧ 5 ∈ pushedBefore (ops hist) ∧ .executed 1 5 ∉ ops hist ∧
    ¬ DeleteComplete [1] (ops hist) s := by
  obtain ⟨hist, s, hexec, hP⟩ := exec_of_execsTo (f := step) (s := Pool.create [1])
    (l := deleteWithTask)
    (P := fun hist _ => decide (.deleteReturned ∈ ops hist ∧ .readFreed 1 ∈ ops hist ∧
      5 ∈ pushedBefore (ops hist) ∧ .executed 1 5 ∉ ops hist)) (by decide)
  obtain ⟨hret, hread, hpushed, hnot⟩ := of_decide_eq_true hP
  exact ⟨hist, s, run_of_exec hexec, hret, hread, hpushed, hnot,
    fun h => h.noReadFreed 1 hread⟩

/-! ## If freed memory keeps its contents -/

/-- The nodes that were joined, in that order. -/
def joinedNodes (done : List Op) : List Addr :=
  done.filterMap fun
    | .joined w => some w
    | _ => none

/-- The nodes that were freed, in that order. -/
def freedNodes (done : List Op) : List Addr :=
  done.filterMap fun
    | .freed w => some w
    | _ => none

/-- A freed node still reads as it did in `s₀`. -/
def FreedKept (s₀ s : Pool ι) (e : Event ι) : Prop :=
  ∀ a garbage, e = .delete garbage → s.deleter = .next a →
    garbage = (workerLinks s₀.workers a).next

/-- How far the last loop of `nthreadpool_delete` has got. -/
def WalkInv (ws : List Addr) (before : List Op) (s : Pool ι) : Prop :=
  match s.deleter with
  | .away | .setStop _ | .lock | .broadcast | .unlock =>
      s.workerList = ws.head? ∧ joinedNodes before = [] ∧ freedNodes before = []
  | .join cur => ∃ pre post, ws = pre ++ post ∧ cur = post.head? ∧
      joinedNodes before = pre ∧ freedNodes before = pre
  | .free a => ∃ pre post, ws = pre ++ a :: post ∧
      joinedNodes before = pre ++ [a] ∧ freedNodes before = pre
  | .next a => (∃ pre post, ws = pre ++ a :: post ∧
      joinedNodes before = pre ++ [a] ∧ freedNodes before = pre ++ [a]) ∧ s.workers a = none
  | .returned => s.workerList = none ∧ joinedNodes before = ws ∧ freedNodes before = ws

theorem joinedNodes_append (done₁ done₂ : List Op) :
    joinedNodes (done₁ ++ done₂) = joinedNodes done₁ ++ joinedNodes done₂ :=
  List.filterMap_append ..

theorem freedNodes_append (done₁ done₂ : List Op) :
    freedNodes (done₁ ++ done₂) = freedNodes done₁ ++ freedNodes done₂ :=
  List.filterMap_append ..

/-- A step that joins and frees nothing and does not move
    `nthreadpool_delete`. -/
theorem WalkInv.keep (h : WalkInv ws before s) (hsame : SameNodes s s')
    (hjoined : joinedNodes done = []) (hfreed : freedNodes done = []) :
    WalkInv ws (before ++ done) s' := by
  unfold WalkInv at h ⊢
  rw [hsame.deleter, hsame.workers, hsame.workerList, joinedNodes_append, freedNodes_append,
    hjoined, hfreed, List.append_nil, List.append_nil]
  exact h

theorem deleteMove_walkInv {garbage : Option Addr}
    (hlist : (workerLinks s₀.workers).IsList s₀.workerList ws) (h : WalkInv ws before s)
    (hkept : ∀ a, s.deleter = .next a → garbage = (workerLinks s₀.workers a).next)
    (hm : DeleteMove s garbage s' done) : WalkInv ws (before ++ done) s' := by
  unfold WalkInv at h
  cases hm with
  | stopsSet hd | setStop hd _ | lock hd _ =>
      simp only [hd] at h
      simpa [WalkInv] using h
  | broadcast hd =>
      simp only [hd] at h
      simpa [WalkInv, Pool.wakeAll, joinedNodes, freedNodes] using h
  | unlock hd =>
      simp only [hd] at h
      refine ⟨[], ws, rfl, h.1, ?_, ?_⟩
      · rw [List.append_nil]
        exact h.2.1
      · rw [List.append_nil]
        exact h.2.2
  | done hd =>
      simp only [hd] at h
      obtain ⟨pre, post, rfl, hcur, hjoined, hfreed⟩ := h
      obtain rfl : post = [] := List.head?_eq_none_iff.mp hcur.symm
      refine ⟨rfl, ?_, ?_⟩
      · simpa [joinedNodes_append, joinedNodes] using hjoined
      · simpa [freedNodes_append, freedNodes] using hfreed
  | @join a n hd hn hex =>
      simp only [hd] at h
      obtain ⟨pre, post, rfl, hcur, hjoined, hfreed⟩ := h
      obtain ⟨post, rfl⟩ := List.head?_eq_some_iff.mp hcur.symm
      refine ⟨pre, post, rfl, ?_, ?_⟩
      · rw [joinedNodes_append, hjoined]
        rfl
      · rw [freedNodes_append, hfreed]
        exact List.append_nil pre
  | @free a n hd hn =>
      simp only [hd] at h
      obtain ⟨pre, post, rfl, hjoined, hfreed⟩ := h
      refine ⟨⟨pre, post, rfl, ?_, ?_⟩, Function.update_self ..⟩
      · rw [joinedNodes_append, hjoined]
        exact List.append_nil _
      · rw [freedNodes_append, hfreed]
        rfl
  | next hd hn =>
      simp only [hd] at h
      cases h.2.symm.trans hn
  | @nextFreed a hd hn =>
      simp only [hd] at h
      obtain ⟨⟨pre, post, rfl, hjoined, hfreed⟩, -⟩ := h
      refine ⟨pre ++ [a], post, by simp, ?_, ?_, ?_⟩
      · rw [hkept a hd]
        exact hlist.chain.next
      · rw [joinedNodes_append, hjoined]
        exact List.append_nil _
      · rw [freedNodes_append, hfreed]
        exact List.append_nil _

/-- In a run in which freed memory keeps its contents, `nthreadpool_delete`
    joins and frees every worker once, in the order of the list, before it
    returns. -/
theorem joined_and_freed_of_kept [DecidableEq ι] {hist : History ι} (h₀ : Created s₀ ws)
    (hrun : Run (Guarded (FreedKept s₀) (StepsOf step)) s₀ hist s)
    (hret : s.deleter = .returned) :
    joinedNodes (ops hist) = ws ∧ freedNodes (ops hist) = ws ∧ s.workerList = none := by
  have hinv : WalkInv ws (ops hist) s := by
    refine hrun.invariant (P := fun hist s => WalkInv ws (ops hist) s) ?_ ?_
    · unfold WalkInv
      rw [h₀.deleter]
      exact ⟨h₀.workers.head, rfl, rfl⟩
    · rintro hist s e done s' hinv ⟨hkept, hstep⟩
      have hsnoc : ops (hist ++ [(e, done)]) = ops hist ++ done := by simp [ops]
      rw [hsnoc]
      cases e with
      | callback w =>
          have hm := callbackStep_ok hstep
          exact hinv.keep (callbackMove_nodes hm) (by cases hm <;> rfl) (by cases hm <;> rfl)
      | push p woken =>
          have hm := pushStep_ok hstep
          exact hinv.keep (pushMove_nodes hm) (by cases hm <;> rfl) (by cases hm <;> rfl)
      | delete garbage =>
          exact deleteMove_walkInv h₀.workers hinv (fun a => hkept a garbage rfl)
            (deleteStep_ok hstep)
      | callDelete =>
          simp only [StepsOf, step] at hstep
          split at hstep <;> cases hstep
          rename_i hd
          simp only [WalkInv, hd] at hinv
          simpa [WalkInv, joinedNodes, freedNodes] using hinv
      | taskReturn w left =>
          simp only [StepsOf, step] at hstep
          split at hstep <;> cases hstep
          exact hinv.keep ⟨rfl, rfl, rfl⟩ rfl rfl
      | wakeUp w =>
          simp only [StepsOf, step] at hstep
          split at hstep <;> cases hstep
          exact hinv.keep ⟨rfl, rfl, rfl⟩ rfl rfl
      | callPush p t =>
          simp only [StepsOf, step] at hstep
          split at hstep <;> cases hstep
          exact hinv.keep ⟨rfl, rfl, rfl⟩ rfl rfl
  unfold WalkInv at hinv
  rw [hret] at hinv
  exact ⟨hinv.2.1, hinv.2.2, hinv.1⟩

end LinuxLearning.ThreadPool
