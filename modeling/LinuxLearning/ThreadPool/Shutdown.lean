/-
  LinuxLearning.ThreadPool.Shutdown

  `nthreadpool_delete` up to its broadcast.  The stop flags are written
  without the mutex, but the broadcast is given under it, when every flag is
  set: no worker is then between its test of the flag and its wait.  So after
  the broadcast nobody waits and nobody will, and every worker whose task
  returns comes to its exit.
-/

import LinuxLearning.ThreadPool.TaskQueue

namespace LinuxLearning.ThreadPool

open Lib

variable {ι : Type} {s s' s₀ : Pool ι} {w v a : Addr} {p : ι} {done : List Op}
  {garbage : Option Addr} {ws : List Addr}

/-! ## What the other threads leave alone -/

/-- The two pools agree on the worker nodes, and `nthreadpool_delete` is at
    the same place in both. -/
structure SameNodes (s s' : Pool ι) : Prop where
  workers : s'.workers = s.workers
  workerList : s'.workerList = s.workerList
  deleter : s'.deleter = s.deleter

theorem callbackMove_nodes (hm : CallbackMove s w s' done) : SameNodes s s' := by
  cases hm <;> exact ⟨rfl, rfl, rfl⟩

theorem pushMove_nodes [DecidableEq ι] (hm : PushMove s p s' done) : SameNodes s s' := by
  cases hm with
  | @signal t woken _ _ => cases woken <;> exact ⟨rfl, rfl, rfl⟩
  | _ => exact ⟨rfl, rfl, rfl⟩

/-! ## The stop flags -/

/-- The flag of every node that is still there is set. -/
def AllStopped (s : Pool ι) (ws : List Addr) : Prop :=
  ∀ w ∈ ws, ∀ n, s.workers w = some n → n.stop = 1

/-- No worker waits, or is about to. -/
def NoneWaits (s : Pool ι) (ws : List Addr) : Prop :=
  ∀ w ∈ ws, s.pc w ≠ .wait ∧ s.pc w ≠ .waiting

/-- The place of `nthreadpool_delete` and what it has achieved there. -/
def StopInv (s : Pool ι) (ws : List Addr) : Prop :=
  match s.deleter with
  | .away => (workerLinks s.workers).IsList s.workerList ws
  -- the nodes before `cur` are done, and the walk will reach the others
  | .setStop cur => ∃ pre post prev, ws = pre ++ post ∧
      (workerLinks s.workers).Chain prev cur post ∧ AllStopped s pre
  | .lock | .broadcast => AllStopped s ws
  | .unlock | .join _ | .free _ | .next _ | .returned => AllStopped s ws ∧ NoneWaits s ws

/-- Writing a flag leaves the links. -/
theorem workerLinks_setStop {n : Worker} {stop : Int} (h : s.workers a = some n) :
    workerLinks (Function.update s.workers a (some { n with stop := stop })) =
      workerLinks s.workers := by
  funext b
  by_cases hb : b = a
  · subst hb
    simp [workerLinks, h]
  · simp [workerLinks, Function.update_of_ne hb]

theorem AllStopped.congr (h : AllStopped s ws) (hw : s'.workers = s.workers) :
    AllStopped s' ws := by
  intro w hws n hn
  exact h w hws n (hw ▸ hn)

/-- Writing a flag sets it, and the others stay set. -/
theorem AllStopped.setStop {n : Worker} {pc : DeleterPc} {pre : List Addr}
    (h : AllStopped s pre) :
    AllStopped
      { s with workers := Function.update s.workers a (some { n with stop := 1 }), deleter := pc }
      (pre ++ [a]) := by
  intro w hw n' hn'
  by_cases hwa : w = a
  · subst hwa
    obtain rfl : { n with stop := 1 } = n' := by simpa using hn'
    rfl
  · have hpre : w ∈ pre := by simpa [hwa] using hw
    exact h w hpre n' (by simpa [Function.update_of_ne hwa] using hn')

/-- A worker that finds its flag set does not go on to wait. -/
theorem NoneWaits.callback (h : NoneWaits s ws) (hstop : AllStopped s ws)
    (hm : CallbackMove s w s' done) : NoneWaits s' ws := by
  intro v hv
  by_cases hvw : v = w
  · subst hvw
    cases hm with
    | noStopInWait _ hn hne => exact absurd (hstop v hv _ hn) hne
    | wait hpc => exact absurd hpc (h v hv).1
    | _ => simp
  · rw [callbackMove_pc_of_ne hm hvw]
    exact h v hv

/-- Nobody starts to wait by being left alone. -/
theorem NoneWaits.keep (h : NoneWaits s ws) (hpc : ∀ v, StaysOrWoken (s.pc v) (s'.pc v)) :
    NoneWaits s' ws := by
  intro v hv
  rcases hpc v with hpc | ⟨-, hpc⟩ <;> rw [hpc]
  · exact h v hv
  · decide

/-- A step that keeps the nodes and lets nobody start to wait once the flags
    are set. -/
theorem StopInv.keep (h : StopInv s ws) (hsame : SameNodes s s')
    (hwaits : AllStopped s ws → NoneWaits s ws → NoneWaits s' ws) : StopInv s' ws := by
  unfold StopInv at h ⊢
  rw [hsame.deleter, hsame.workers, hsame.workerList]
  cases hd : s.deleter with
  | away => simpa [hd] using h
  | setStop cur =>
      simp only [hd] at h
      obtain ⟨pre, post, prev, hsplit, hchain, hpre⟩ := h
      exact ⟨pre, post, prev, hsplit, hchain, hpre.congr hsame.workers⟩
  | lock | broadcast =>
      simp only [hd] at h
      exact h.congr hsame.workers
  | unlock | join w | free w | next w | returned =>
      simp only [hd] at h
      exact ⟨h.1.congr hsame.workers, hwaits h.1 h.2⟩

/-- The broadcast is given with every flag set and nobody inside but the thread
    that gives it: whoever would wait waits already and is woken. -/
theorem noneWaits_broadcast (hg : Guards s.mutex s.stance) (hd : s.deleter = .broadcast)
    (pc : DeleterPc) : NoneWaits { s.wakeAll with deleter := pc } ws := by
  intro w _
  show (s.wakeAll.pc w) ≠ .wait ∧ s.wakeAll.pc w ≠ .waiting
  have hin : s.stance .deleter = .inside := by
    show s.deleter.stance = .inside
    rw [hd]
    rfl
  by_cases hw : s.pc w = .waiting
  · simp [Pool.wakeAll, hw]
  · have hwait : s.pc w ≠ .wait := fun hpc => by
      have hwin : s.stance (.worker w) = .inside := by
        show (s.pc w).stance = .inside
        rw [hpc]
        rfl
      cases hg.unique hwin hin
    simp [Pool.wakeAll, hw, hwait]

theorem deleteMove_stopInv (h : StopInv s ws) (hg : Guards s.mutex s.stance)
    (hm : DeleteMove s garbage s' done) : StopInv s' ws := by
  unfold StopInv at h
  cases hm with
  | stopsSet hd =>
      simp only [hd] at h
      obtain ⟨pre, post, prev, rfl, hchain, hpre⟩ := h
      cases post with
      | nil =>
          rw [List.append_nil]
          exact hpre.congr rfl
      | cons x post => cases hchain.1
  | @setStop a n hd hn =>
      simp only [hd] at h
      obtain ⟨pre, post, prev, rfl, hchain, hpre⟩ := h
      cases post with
      | nil => cases hchain
      | cons x post =>
          obtain ⟨hx, -, hrest⟩ := hchain
          obtain rfl : a = x := Option.some.inj hx
          have hnext : (workerLinks s.workers a).next = n.link.next := by simp [workerLinks, hn]
          refine ⟨pre ++ [a], post, some a, by simp, ?_, hpre.setStop⟩
          rw [workerLinks_setStop hn, ← hnext]
          exact hrest
  | lock hd _ =>
      simp only [hd] at h
      exact h.congr rfl
  | broadcast hd =>
      simp only [hd] at h
      exact ⟨h.congr rfl, noneWaits_broadcast hg hd _⟩
  | unlock hd | done hd | join hd _ _ | next hd _ | nextFreed hd _ =>
      simp only [hd] at h
      exact ⟨h.1.congr rfl, h.2⟩
  | @free a n hd hn =>
      simp only [hd] at h
      refine ⟨fun w hw n' hn' => ?_, h.2⟩
      by_cases hwa : w = a
      · subst hwa
        simp at hn'
      · exact h.1 w hw n' (by simpa [Function.update_of_ne hwa] using hn')

/-- Every step keeps it. -/
theorem poolMove_stopInv [DecidableEq ι] (h : StopInv s ws) (hg : Guards s.mutex s.stance)
    (hm : PoolMove s s' done) : StopInv s' ws := by
  cases hm with
  | callback w hm =>
      exact h.keep (callbackMove_nodes hm) fun hstop hnone => hnone.callback hstop hm
  | push p hm => exact h.keep (pushMove_nodes hm) fun _ hnone => hnone.keep (pushMove_pc hm)
  | delete hm => exact deleteMove_stopInv h hg hm
  | @taskReturn w t left hpc | @wakeUp w hpc =>
      refine h.keep ⟨rfl, rfl, rfl⟩ fun _ hnone v hv => ?_
      by_cases hvw : v = w
      · subst hvw
        simp
      · rw [setPc_pc_of_ne _ _ hvw]
        exact hnone v hv
  | callPush hpc => exact h.keep ⟨rfl, rfl, rfl⟩ fun _ hnone => hnone
  | callDelete hd =>
      simp only [StopInv, hd] at h
      exact ⟨[], ws, none, rfl, h.chain, fun w hw => by cases hw⟩

theorem Created.stopInv (h : Created s ws) : StopInv s ws := by
  unfold StopInv
  rw [h.deleter]
  exact h.workers

/-! ## After the broadcast -/

/-- `nthreadpool_delete` has given its broadcast. -/
def DeleterPc.Past : DeleterPc → Prop
  | .unlock | .join _ | .free _ | .next _ | .returned => True
  | _ => False

/-- What the invariant says there. -/
theorem StopInv.of_past (h : StopInv s ws) (hpast : s.deleter.Past) :
    AllStopped s ws ∧ NoneWaits s ws := by
  unfold StopInv at h
  cases hd : s.deleter with
  | unlock | join _ | free _ | next _ | returned =>
      simp only [hd] at h
      exact h
  | _ => simp [hd, DeleterPc.Past] at hpast

/-- Only the broadcast gets there, and there is no way back. -/
theorem poolMove_past [DecidableEq ι] (hm : PoolMove s s' done)
    (h : s.deleter.Past ∨ .broadcast ∈ done) : s'.deleter.Past := by
  cases hm with
  | callback w hm =>
      rw [(callbackMove_nodes hm).deleter]
      refine h.resolve_right fun hmem => ?_
      cases hm <;> simp at hmem
  | push p hm =>
      rw [(pushMove_nodes hm).deleter]
      refine h.resolve_right fun hmem => ?_
      cases hm <;> simp at hmem
  | delete hm =>
      cases hm with
      | stopsSet hd | setStop hd _ | lock hd _ => simp [hd, DeleterPc.Past] at h
      | _ => trivial
  | taskReturn _ | wakeUp _ | callPush _ => exact h.resolve_right (by simp)
  | callDelete hd => simp [hd, DeleterPc.Past] at h

/-! ## The nodes of running workers -/

/-- A worker that has not left has its node, and no other is being freed. -/
structure NodesInv (s : Pool ι) (ws : List Addr) : Prop where
  node : ∀ w, s.pc w ≠ .exited → w ∈ ws ∧ ∃ n, s.workers w = some n
  free : ∀ a, s.deleter = .free a → s.pc a = .exited

theorem callbackMove_not_exited (hm : CallbackMove s w s' done) : s.pc w ≠ .exited := by
  cases hm with
  | lock hpc _ => rcases hpc with hpc | hpc <;> rw [hpc] <;> decide
  | listEmpty hpc _ | listFilled hpc _ | stopInWait hpc _ _ | noStopInWait hpc _ _ | wait hpc
  | stop hpc _ _ | noStop hpc _ _ | exit hpc | pop hpc _ | unlockTask hpc | call hpc =>
      rw [hpc]
      simp

theorem StaysOrWoken.exited_iff {pc pc' : WorkerPc} (h : StaysOrWoken pc pc') :
    pc' = .exited ↔ pc = .exited := by
  rcases h with rfl | ⟨rfl, rfl⟩
  · exact Iff.rfl
  · decide

/-- Moves that touch neither the nodes nor who has left. -/
theorem NodesInv.keep (h : NodesInv s ws) (hsame : SameNodes s s')
    (hpc : ∀ v, s'.pc v ≠ .exited → s.pc v ≠ .exited)
    (hexited : ∀ v, s.pc v = .exited → s'.pc v = .exited) : NodesInv s' ws where
  node := fun w hw => by
    rw [hsame.workers]
    exact h.node w (hpc w hw)
  free := fun a ha => hexited a (h.free a (hsame.deleter ▸ ha))

theorem deleteMove_nodesInv (h : NodesInv s ws) (hm : DeleteMove s garbage s' done) :
    NodesInv s' ws := by
  have hpc : ∀ v, s'.pc v ≠ .exited → s.pc v ≠ .exited := fun v hv heq =>
    hv ((deleteMove_pc hm v).exited_iff.mpr heq)
  cases hm with
  | @setStop a n hd hn =>
      refine ⟨fun w hw => ⟨(h.node w hw).1, ?_⟩, fun b hb => by cases hb⟩
      by_cases hwa : w = a
      · subst hwa
        exact ⟨_, Function.update_self ..⟩
      · obtain ⟨n', hn'⟩ := (h.node w hw).2
        exact ⟨n', (Function.update_of_ne hwa ..).trans hn'⟩
  | @free a n hd hn =>
      refine ⟨fun w hw => ⟨(h.node w hw).1, ?_⟩, fun b hb => by cases hb⟩
      have hwa : w ≠ a := fun heq => hw (heq ▸ h.free a hd)
      obtain ⟨n', hn'⟩ := (h.node w hw).2
      exact ⟨n', (Function.update_of_ne hwa ..).trans hn'⟩
  | @join a n hd hn hex =>
      refine ⟨fun w hw => h.node w hw, fun b hb => ?_⟩
      cases hb
      exact hex
  | broadcast hd => exact ⟨fun w hw => h.node w (hpc w hw), fun b hb => by cases hb⟩
  | _ => exact ⟨fun w hw => h.node w hw, fun b hb => by cases hb⟩

theorem poolMove_nodesInv [DecidableEq ι] (h : NodesInv s ws) (hm : PoolMove s s' done) :
    NodesInv s' ws := by
  cases hm with
  | callback w hm =>
      have hne := callbackMove_not_exited hm
      refine h.keep (callbackMove_nodes hm) (fun v hv => ?_) fun v hv => ?_
      · by_cases hvw : v = w
        · exact hvw ▸ hne
        · rwa [callbackMove_pc_of_ne hm hvw] at hv
      · have hvw : v ≠ w := fun heq => hne (heq ▸ hv)
        rw [callbackMove_pc_of_ne hm hvw]
        exact hv
  | push p hm =>
      have hiff := fun v => (pushMove_pc hm v).exited_iff
      exact h.keep (pushMove_nodes hm) (fun v hv heq => hv ((hiff v).mpr heq))
        fun v hv => (hiff v).mpr hv
  | delete hm => exact deleteMove_nodesInv h hm
  | @taskReturn w t left hpc | @wakeUp w hpc =>
      refine h.keep ⟨rfl, rfl, rfl⟩ (fun v hv => ?_) fun v hv => ?_
      · by_cases hvw : v = w
        · rw [hvw, hpc]
          simp
        · rwa [setPc_pc_of_ne _ _ hvw] at hv
      · have hvw : v ≠ w := by
          rintro rfl
          rw [hpc] at hv
          cases hv
        rw [setPc_pc_of_ne _ _ hvw]
        exact hv
  | callPush hpc => exact h.keep ⟨rfl, rfl, rfl⟩ (fun _ hv => hv) fun _ hv => hv
  | callDelete hd => exact ⟨fun w hw => h.node w hw, fun b hb => by cases hb⟩

theorem Created.nodesInv (h : Created s ws) : NodesInv s ws where
  node := fun w hw => by
    have hws : w ∈ ws := by
      by_contra hout
      exact hw (h.others w hout)
    obtain ⟨n, hn, -⟩ := h.stop w hws
    exact ⟨hws, n, hn⟩
  free := fun a ha => by
    rw [h.deleter] at ha
    cases ha

/-! ## The invariants of a run -/

/-- The invariants of a run. -/
structure PoolInv (s : Pool ι) (ws : List Addr) : Prop where
  guards : Guards s.mutex s.stance
  seen : ∀ w, ListSeen s w
  stop : StopInv s ws
  nodes : NodesInv s ws

theorem PoolInv.move [DecidableEq ι] (h : PoolInv s ws) (hm : PoolMove s s' done) :
    PoolInv s' ws :=
  ⟨poolMove_guards h.guards hm, poolMove_listSeen h.guards h.seen hm,
    poolMove_stopInv h.stop h.guards hm, poolMove_nodesInv h.nodes hm⟩

theorem poolInv_of_run [DecidableEq ι] {hist : History ι} (h₀ : Created s₀ ws)
    (hrun : PoolRun s₀ hist s) :
    PoolInv s ws ∧ (.broadcast ∈ ops hist → s.deleter.Past) :=
  hrun.invariant
    (P := fun hist s => PoolInv s ws ∧ (.broadcast ∈ ops hist → s.deleter.Past))
    ⟨⟨h₀.guards, h₀.tasksInv.seen, h₀.stopInv, h₀.nodesInv⟩, fun hmem => by cases hmem⟩
    fun hist s e done s' hinv hstep => by
      refine ⟨hinv.1.move (step_ok hstep), fun hmem => ?_⟩
      rw [ops_append, List.mem_append] at hmem
      have hdone : ops [(e, done)] = done := by simp [ops]
      rw [hdone] at hmem
      exact poolMove_past (step_ok hstep) (hmem.imp_left hinv.2)

end LinuxLearning.ThreadPool
