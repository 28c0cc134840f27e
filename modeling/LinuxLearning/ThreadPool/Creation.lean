/-
  LinuxLearning.ThreadPool.Creation

  `nthreadpool_creat`, beside the workers that it has started already.
  `memset(workers,0,sizeof(workers))` clears as many bytes as a pointer has,
  which is `thread_id`; what `stop` holds is what the memory held that
  `malloc` returned.
-/

import LinuxLearning.ThreadPool.Shutdown

namespace LinuxLearning.ThreadPool

open Lib

variable {ι : Type}

/-! ## The memory of a node -/

/-- What `malloc(sizeof(worker))` returns: `thread_id` is the bytes from 0 on,
    `stop` those from 8 on, the three pointers follow from 16 on. -/
abbrev Block := Vector UInt8 40

/-- `memset(block,0,n)` -/
def memset (block : Block) (n : Nat) : Block :=
  Vector.ofFn fun i => if i.val < n then 0 else block[i]

/-- `sizeof(workers)`; `workers` is a pointer. -/
def sizeofWorkers : Nat := 8

/-- The `int` at `stop`. -/
def stopOf (block : Block) : Int :=
  (block[11].toBitVec ++ block[10].toBitVec ++ block[9].toBitVec ++ block[8].toBitVec).toInt

/-- `stop` is behind what `memset` clears. -/
theorem stopOf_memset (block : Block) : stopOf (memset block sizeofWorkers) = stopOf block := by
  simp [stopOf, memset, sizeofWorkers]

/-! ## The steps of `nthreadpool_creat` -/

/-- Where the thread is in `nthreadpool_creat`. -/
inductive CreatorPc where
  /-- `i<workernum`, and `malloc` -/
  | malloc (i : Nat)
  /-- `pthread_create`, for the node that was put on the list. -/
  | create (i : Nat) (node : Addr)
  | returned (ret : Int)
deriving DecidableEq, Repr

/-- A pool that is being created. -/
structure Creation (ι : Type) where
  pool : Pool ι
  workernum : Int
  creator : CreatorPc

/-- What happens next. -/
inductive CreateEvent where
  /-- `malloc` returns null, or a block and what it holds. -/
  | malloc (ret : Option (Addr × Block))
  /-- `pthread_create` returns. -/
  | create (ret : Int)
  /-- `i<workernum` is false. -/
  | endLoop
  /-- A worker that was started goes on in `nthreadpool_callback`. -/
  | callback (w : Addr)
  /-- A wake-up without a signal. -/
  | wakeUp (w : Addr)

/-- The pool behind `memset(pool,0,sizeof(threadpool))`; `tasks` is what the
    memory holds that tasks will be in. -/
def Pool.zeroed (tasks : Links Addr) : Pool ι where
  taskList := none
  tasks := tasks
  workerList := none
  workers := fun _ => none
  mutex := none
  started := []
  pc := fun _ => .exited
  pusher := fun _ => .away
  deleter := .away

/-- `nthreadpool_creat(pool,workernum)`, in front of the loop. -/
def creat (poolIsNull : Bool) (tasks : Links Addr) (workernum : Int) : Creation ι where
  pool := .zeroed tasks
  workernum := if workernum < 1 then 1 else workernum
  creator := if poolIsNull then .returned (-1) else .malloc 0

/-- `List_insert(workers,pool->worker_list)`, of the node at `a`. -/
def Pool.insertWorker (s : Pool ι) (a : Addr) (stop : Int) : Pool ι :=
  let node : Worker := { stop := stop, link := { next := none, prev := none } }
  let workers := Function.update s.workers a (some node)
  let r := (workerLinks workers).pushFront s.workerList a
  { s with workers := fun b => (workers b).map fun n => { n with link := r.1 b }
           workerList := r.2 }

/-- `pthread_create` for the node at `a`. -/
def Pool.start (s : Pool ι) (a : Addr) : Pool ι :=
  { s with started := a :: s.started, pc := Function.update s.pc a .lock }

/-- One step, of `nthreadpool_creat` or of a worker. -/
def creatStep (s : Creation ι) : CreateEvent → Option (Creation ι)
  | .malloc ret =>
      match s.creator with
      | .malloc i =>
          if (i : Int) < s.workernum then
            match ret with
            | none => some { s with creator := .returned (-1) }
            | some (a, block) =>
                -- `malloc` does not return memory that is in use
                if s.pool.workers a = none then
                  some { s with pool := s.pool.insertWorker a (stopOf (memset block sizeofWorkers))
                                creator := .create i a }
                else none
          else none
      | _ => none
  | .create ret =>
      match s.creator with
      | .create i a =>
          if ret = 0 then some { s with pool := s.pool.start a, creator := .malloc (i + 1) }
          -- the node stays on the list
          else some { s with creator := .returned (-1) }
      | _ => none
  | .endLoop =>
      match s.creator with
      | .malloc i =>
          -- the loop goes on as long as there are workers to start
          if (i : Int) < s.workernum then none else some { s with creator := .returned 0 }
      | _ => none
  | .callback w =>
      match callbackStep s.pool w with
      | .ok (pool, _) => some { s with pool := pool }
      | .error _ => none
  | .wakeUp w =>
      if s.pool.pc w = .waiting then some { s with pool := s.pool.setPc w .woken } else none

/-- The moves of a creation. -/
inductive CreateMove (s : Creation ι) : CreateEvent → Creation ι → Prop
  | noMemory {i : Nat} : s.creator = .malloc i → (i : Int) < s.workernum →
      CreateMove s (.malloc none) { s with creator := .returned (-1) }
  | insert {i : Nat} {a : Addr} {block : Block} : s.creator = .malloc i →
      (i : Int) < s.workernum → s.pool.workers a = none →
      CreateMove s (.malloc (some (a, block)))
        { s with pool := s.pool.insertWorker a (stopOf block), creator := .create i a }
  | start {i : Nat} {a : Addr} : s.creator = .create i a →
      CreateMove s (.create 0) { s with pool := s.pool.start a, creator := .malloc (i + 1) }
  | noThread {i : Nat} {a : Addr} {ret : Int} : s.creator = .create i a → ret ≠ 0 →
      CreateMove s (.create ret) { s with creator := .returned (-1) }
  | done {i : Nat} : s.creator = .malloc i → ¬ (i : Int) < s.workernum →
      CreateMove s .endLoop { s with creator := .returned 0 }
  | callback {w : Addr} {pool : Pool ι} {ops : List Op} : CallbackMove s.pool w pool ops →
      CreateMove s (.callback w) { s with pool := pool }
  | wakeUp {w : Addr} : s.pool.pc w = .waiting →
      CreateMove s (.wakeUp w) { s with pool := s.pool.setPc w .woken }

theorem creatStep_some {s s' : Creation ι} {e : CreateEvent} (h : creatStep s e = some s') :
    CreateMove s e s' := by
  cases e with
  | malloc ret =>
      simp only [creatStep] at h
      split at h
      · rename_i hpc
        split at h
        · rename_i hlt
          split at h
          · cases h
            exact .noMemory hpc hlt
          · split at h <;> cases h
            rw [stopOf_memset]
            exact .insert hpc hlt ‹_›
        · cases h
      · cases h
  | create ret =>
      simp only [creatStep] at h
      split at h
      · rename_i hpc
        split at h <;> cases h
        · rename_i hret
          exact hret ▸ .start hpc
        · exact .noThread hpc ‹_›
      · cases h
  | endLoop =>
      simp only [creatStep] at h
      split at h
      · rename_i hpc
        split at h <;> cases h
        exact .done hpc ‹_›
      · cases h
  | callback w =>
      simp only [creatStep] at h
      split at h <;> cases h
      exact .callback (callbackStep_ok ‹_›)
  | wakeUp w =>
      simp only [creatStep] at h
      split at h <;> cases h
      exact .wakeUp ‹_›

/-! ## The list of the workers -/

variable {s s' : Creation ι} {e : CreateEvent} {ws : List Addr} {w a : Addr} {p p' : Pool ι}
  {done : List Op}

/-- The link fields behind an insertion. -/
theorem workerLinks_insertWorker (stop : Int) (h : p.workers w ≠ none ∨ w = a) :
    workerLinks (p.insertWorker a stop).workers w =
      ((workerLinks (Function.update p.workers a (some ⟨stop, ⟨none, none⟩⟩))).pushFront
        p.workerList a).1 w := by
  have hsome : (Function.update p.workers a (some ⟨stop, ⟨none, none⟩⟩)) w ≠ none := by
    by_cases hw : w = a
    · subst hw
      simp
    · rw [Function.update_of_ne hw]
      exact h.resolve_right hw
  obtain ⟨n, hn⟩ := Option.ne_none_iff_exists'.mp hsome
  simp [Pool.insertWorker, workerLinks, hn]

/-- A new node is put in front. -/
theorem isList_insertWorker (stop : Int) (hl : (workerLinks p.workers).IsList p.workerList ws)
    (hnodes : ∀ w ∈ ws, p.workers w ≠ none) (hnew : p.workers a = none) :
    (workerLinks (p.insertWorker a stop).workers).IsList (p.insertWorker a stop).workerList
      (a :: ws) := by
  -- the fields of the other nodes were not touched before the insertion
  have ha : a ∉ ws := fun hmem => hnodes a hmem hnew
  have hold : (workerLinks (Function.update p.workers a (some ⟨stop, ⟨none, none⟩⟩))).IsList
      p.workerList ws :=
    hl.congr fun w hw => by
      rw [workerLinks, workerLinks, Function.update_of_ne (ne_of_mem_of_not_mem hw ha)]
  refine (hold.pushFront ha).congr fun w hw => workerLinks_insertWorker stop ?_
  rcases List.mem_cons.mp hw with rfl | hw
  · exact .inr rfl
  · exact .inl (hnodes w hw)

/-- The flag of the new node, and of the others. -/
theorem stop_insertWorker (stop : Int) (hnew : p.workers a = none) :
    (∀ w n, (p.insertWorker a stop).workers w = some n → n.stop = 0) ↔
      (∀ w n, p.workers w = some n → n.stop = 0) ∧ stop = 0 := by
  constructor
  · intro h
    obtain ⟨link, hlink⟩ : ∃ link, (p.insertWorker a stop).workers a = some ⟨stop, link⟩ := by
      simp [Pool.insertWorker]
    refine ⟨fun w n hn => ?_, h a _ hlink⟩
    have hw : w ≠ a := by
      rintro rfl
      rw [hnew] at hn
      cases hn
    obtain ⟨link', hlink'⟩ : ∃ link, (p.insertWorker a stop).workers w = some ⟨n.stop, link⟩ := by
      simp [Pool.insertWorker, Function.update_of_ne hw, hn]
    have hzero := h w _ hlink'
    exact hzero
  · rintro ⟨hold, rfl⟩ w n hn
    by_cases hw : w = a
    · subst hw
      simp [Pool.insertWorker] at hn
      rw [← hn]
    · simp only [Pool.insertWorker, Function.update_of_ne hw, Option.map_eq_some_iff] at hn
      obtain ⟨m, hm, rfl⟩ := hn
      exact hold w m hm

/-- A worker that was not told to stop is not leaving. -/
def Stays (p : Pool ι) (w : Addr) : Prop :=
  ∀ n, p.workers w = some n → n.stop ≠ 1 → p.pc w ≠ .unlockStop ∧ p.pc w ≠ .exited

theorem Stays.of_pc (h₁ : p.pc w ≠ .unlockStop) (h₂ : p.pc w ≠ .exited) : Stays p w :=
  fun _ _ _ => ⟨h₁, h₂⟩

theorem Stays.of_woken (h : Stays p w) (hworkers : p'.workers = p.workers)
    (hpc : StaysOrWoken (p.pc w) (p'.pc w)) : Stays p' w := by
  intro n hn hne
  rw [hworkers] at hn
  rcases hpc with hpc | ⟨-, hpc⟩
  · rw [hpc]
    exact h n hn hne
  · rw [hpc]
    decide

theorem callbackMove_stays {v : Addr} (h : Stays p w) (hm : CallbackMove p v p' done) :
    Stays p' w := by
  have hworkers := (callbackMove_nodes hm).workers
  by_cases hv : w = v
  · subst hv
    cases hm with
    | @stop n _ hn hstop =>
        intro m hm hne
        obtain rfl : n = m := Option.some.inj (hn.symm.trans hm)
        exact absurd hstop hne
    -- only a worker that has read `stop` as 1 leaves
    | exit hpc => exact fun n hn hne => absurd hpc (h n hn hne).1
    | stopInWait | noStopInWait => exact .of_pc (by simp) (by simp)
    | _ => exact .of_pc (by simp) (by simp)
  · exact h.of_woken hworkers (.inl (callbackMove_pc_of_ne hm hv))

theorem wakeUp_stays {v : Addr} (h : Stays p w) (hpc : p.pc v = .waiting) :
    Stays (p.setPc v .woken) w := by
  refine h.of_woken rfl ?_
  by_cases hv : w = v
  · subst hv
    exact .inr ⟨hpc, setPc_pc_self ..⟩
  · exact .inl (setPc_pc_of_ne _ _ hv)

/-! ## Every state of a creation -/

/-- The nodes that were put on the list, and the threads, at each place. -/
def CreatorPc.Holds (pc : CreatorPc) (workernum : Int) (started ws : List Addr) : Prop :=
  match pc with
  | .malloc i => ws = started ∧ ws.length = i ∧ (i : Int) ≤ workernum
  | .create i a => ws = a :: started ∧ started.length = i ∧ (i : Int) < workernum
  | .returned ret =>
      ret = 0 ∧ ws = started ∧ (ws.length : Int) = workernum ∨ ret = -1 ∧ started ⊆ ws

/-- What holds in every state, with `ws` the nodes of the list. -/
structure CreateInv (s : Creation ι) (ws : List Addr) : Prop where
  list : (workerLinks s.pool.workers).IsList s.pool.workerList ws
  nodes : ∀ w, w ∈ ws ↔ s.pool.workers w ≠ none
  creator : s.creator.Holds s.workernum s.pool.started ws
  stays : ∀ w ∈ s.pool.started, Stays s.pool w
  deleter : s.pool.deleter = .away

theorem createInv_creat (poolIsNull : Bool) (tasks : Links Addr) (workernum : Int) :
    CreateInv (creat poolIsNull tasks workernum : Creation ι) [] where
  list := Links.isList_nil _
  nodes := fun w => by simp [creat, Pool.zeroed]
  creator := by
    cases poolIsNull with
    | true => exact .inr ⟨rfl, fun _ hmem => hmem⟩
    | false =>
        refine ⟨rfl, rfl, ?_⟩
        show ((0 : Nat) : Int) ≤ if workernum < 1 then 1 else workernum
        split <;> omega
  stays := fun _ hmem => by cases hmem
  deleter := rfl

/-- A worker's step leaves the list and the creator alone. -/
theorem CreateInv.keep (h : CreateInv s ws) (hsame : SameNodes s.pool p)
    (hstarted : p.started = s.pool.started) (hstays : ∀ w ∈ s.pool.started, Stays p w) :
    CreateInv { s with pool := p } ws where
  list := by
    show (workerLinks p.workers).IsList p.workerList ws
    rw [hsame.workers, hsame.workerList]
    exact h.list
  nodes := fun w => by
    show w ∈ ws ↔ p.workers w ≠ none
    rw [hsame.workers]
    exact h.nodes w
  creator := by
    show s.creator.Holds s.workernum p.started ws
    rw [hstarted]
    exact h.creator
  stays := fun w hw => hstays w (hstarted ▸ hw)
  deleter := hsame.deleter.trans h.deleter

theorem callbackMove_started {v : Addr} (hm : CallbackMove p v p' done) :
    p'.started = p.started := by
  cases hm <;> rfl

/-- Every move keeps the invariant. -/
theorem CreateInv.move (h : CreateInv s ws) (hm : CreateMove s e s') : ∃ ws', CreateInv s' ws' := by
  cases hm with
  | noMemory hpc _ =>
      have hc := h.creator
      rw [hpc] at hc
      exact ⟨ws, h.list, h.nodes, .inr ⟨rfl, hc.1 ▸ List.Subset.refl _⟩, h.stays, h.deleter⟩
  | @insert i a block hpc hlt hnew =>
      have hc := h.creator
      rw [hpc] at hc
      obtain ⟨hws, hlen, -⟩ := hc
      refine ⟨a :: ws, isList_insertWorker _ h.list (fun w hw => (h.nodes w).mp hw) hnew,
        fun w => ?_, ⟨hws ▸ rfl, hws ▸ hlen, hlt⟩, fun w hw => ?_, h.deleter⟩
      · by_cases hw : w = a
        · subst hw
          simp [Pool.insertWorker]
        · simp [Pool.insertWorker, hw, h.nodes w]
      · have hmem : w ∈ ws := hws ▸ hw
        have hwa : w ≠ a := fun heq => (h.nodes w).mp hmem (heq ▸ hnew)
        intro n hn hne
        simp only [Pool.insertWorker, Function.update_of_ne hwa, Option.map_eq_some_iff] at hn
        obtain ⟨m, hm, rfl⟩ := hn
        exact h.stays w hw m hm hne
  | @start i a hpc =>
      have hc := h.creator
      rw [hpc] at hc
      obtain ⟨hws, hlen, hlt⟩ := hc
      refine ⟨ws, h.list, h.nodes, ⟨hws, ?_, by push_cast; omega⟩, fun w hw => ?_, h.deleter⟩
      · rw [hws, List.length_cons, hlen]
      · by_cases hwa : w = a
        · subst hwa
          exact .of_pc (by simp [Pool.start]) (by simp [Pool.start])
        · have hold := h.stays w ((List.mem_cons.mp hw).resolve_left hwa)
          intro n hn hne
          simp only [Pool.start, Function.update_of_ne hwa]
          exact hold n hn hne
  | noThread hpc _ =>
      have hc := h.creator
      rw [hpc] at hc
      exact ⟨ws, h.list, h.nodes, .inr ⟨rfl, hc.1 ▸ List.subset_cons_self ..⟩, h.stays, h.deleter⟩
  | @done i hpc hge =>
      have hc := h.creator
      rw [hpc] at hc
      obtain ⟨hws, hlen, hle⟩ := hc
      have hcount : (ws.length : Int) = s.workernum := by omega
      exact ⟨ws, h.list, h.nodes, .inl ⟨rfl, hws, hcount⟩, h.stays, h.deleter⟩
  | callback hm =>
      exact ⟨ws, h.keep (callbackMove_nodes hm) (callbackMove_started hm)
        fun w hw => callbackMove_stays (h.stays w hw) hm⟩
  | wakeUp hpc =>
      exact ⟨ws, h.keep ⟨rfl, rfl, rfl⟩ rfl fun w hw => wakeUp_stays (h.stays w hw) hpc⟩

/-! ## The condition -/

/-- The memory that `malloc` returns holds zero where `stop` is, `malloc`
    fails at no worker but the first, and `pthread_create` does not fail. -/
def CleanCall (s : Creation ι) : CreateEvent → Prop
  | .malloc (some (_, block)) => stopOf block = 0
  | .malloc none => s.creator = .malloc 0
  | .create ret => ret = 0
  | .endLoop | .callback _ | .wakeUp _ => True

instance (s : Creation ι) : (e : CreateEvent) → Decidable (CleanCall s e)
  | .malloc (some (_, block)) => inferInstanceAs (Decidable (stopOf block = 0))
  | .malloc none => inferInstanceAs (Decidable (s.creator = .malloc 0))
  | .create ret => inferInstanceAs (Decidable (ret = 0))
  | .endLoop | .callback _ | .wakeUp _ => inferInstanceAs (Decidable True)

/-- So far no flag is set, and nothing is left behind by a failure. -/
structure CleanSoFar (s : Creation ι) : Prop where
  stop : ∀ w n, s.pool.workers w = some n → n.stop = 0
  failed : s.creator = .returned (-1) → s.pool.workerList = none

/-- As long as the call has not returned there is no failure. -/
theorem CleanSoFar.of_pc {pc : CreatorPc} (hstop : ∀ w n, s.pool.workers w = some n → n.stop = 0)
    (hpc : s.creator = pc) (hne : pc ≠ .returned (-1)) : CleanSoFar s :=
  ⟨hstop, fun hret => absurd (hpc.symm.trans hret) hne⟩

theorem CreateInv.workerList_eq_none (h : CreateInv s ws) : s.pool.workerList = none ↔ ws = [] := by
  rw [h.list.head, List.head?_eq_none_iff]

/-- A move leaves the creation clean just if it was and the call is. -/
theorem CreateInv.cleanSoFar_iff (h : CreateInv s ws) (hm : CreateMove s e s') :
    CleanSoFar s' ↔ CleanSoFar s ∧ CleanCall s e := by
  have hc := h.creator
  cases hm with
  | @noMemory i hpc _ =>
      rw [hpc] at hc
      obtain ⟨-, hlen, -⟩ := hc
      -- the list is as long as the loop has come
      have hempty : s.pool.workerList = none ↔ i = 0 := by
        rw [h.workerList_eq_none, ← List.length_eq_zero_iff, hlen]
      constructor
      · intro hclean
        refine ⟨.of_pc hclean.stop hpc (by simp), ?_⟩
        rw [CleanCall, hpc, hempty.mp (hclean.failed rfl)]
      · rintro ⟨hclean, hcall⟩
        refine ⟨hclean.stop, fun _ => hempty.mpr ?_⟩
        rw [CleanCall, hpc] at hcall
        exact CreatorPc.malloc.inj hcall
  | @insert i a block hpc _ hnew =>
      have hstop := stop_insertWorker (stopOf block) hnew
      constructor
      · intro hclean
        obtain ⟨hold, hzero⟩ := hstop.mp hclean.stop
        exact ⟨.of_pc hold hpc (by simp), hzero⟩
      · rintro ⟨hclean, hzero⟩
        exact .of_pc (hstop.mpr ⟨hclean.stop, hzero⟩) rfl (by simp)
  | start hpc =>
      constructor
      · exact fun hclean => ⟨.of_pc hclean.stop hpc (by simp), rfl⟩
      · exact fun hclean => .of_pc hclean.1.stop rfl (by simp)
  | noThread hpc hret =>
      rw [hpc] at hc
      refine iff_of_false (fun hclean => ?_) fun hclean => hret hclean.2
      -- the node of the missing thread is on the list
      have hnil := h.workerList_eq_none.mp (hclean.failed rfl)
      rw [hc.1] at hnil
      cases hnil
  | done hpc _ =>
      constructor
      · exact fun hclean => ⟨.of_pc hclean.stop hpc (by simp), trivial⟩
      · exact fun hclean => .of_pc hclean.1.stop rfl (by simp)
  | callback hm =>
      have hsame := callbackMove_nodes hm
      constructor
      · exact fun hclean =>
          ⟨⟨hsame.workers ▸ hclean.stop, hsame.workerList ▸ hclean.failed⟩, trivial⟩
      · exact fun hclean => ⟨hsame.workers.symm ▸ hclean.1.stop,
          hsame.workerList.symm ▸ hclean.1.failed⟩
  | wakeUp _ => exact ⟨fun hclean => ⟨⟨hclean.stop, hclean.failed⟩, trivial⟩,
      fun hclean => ⟨hclean.1.stop, hclean.1.failed⟩⟩

/-! ## What the pool does afterwards -/

/-- Before the pool is deleted, a worker that was not told to stop goes
    on. -/
theorem stays_of_run [DecidableEq ι] {hist : History ι} (hrun : PoolRun p hist p')
    (hdeleter : p.deleter = .away) (hworker : Stays p w) (hnot : .deleteCalled ∉ ops hist) :
    p'.deleter = .away ∧ p'.workers = p.workers ∧ Stays p' w := by
  induction hrun with
  | start => exact ⟨hdeleter, rfl, hworker⟩
  | @step hist q e done q' _ hstep ih =>
      have hsplit : ops (hist ++ [(e, done)]) = ops hist ++ done := by simp [ops]
      rw [hsplit, List.mem_append, not_or] at hnot
      obtain ⟨haway, hworkers, hstays⟩ := ih hnot.1
      have hm := step_ok hstep
      cases hm with
      | callback v hm =>
          have hsame := callbackMove_nodes hm
          exact ⟨hsame.deleter.trans haway, hsame.workers.trans hworkers,
            callbackMove_stays hstays hm⟩
      | push v hm =>
          have hsame := pushMove_nodes hm
          exact ⟨hsame.deleter.trans haway, hsame.workers.trans hworkers,
            hstays.of_woken hsame.workers (pushMove_pc hm w)⟩
      | delete hm => cases hm <;> simp_all
      | @taskReturn v t left hpc =>
          refine ⟨haway, hworkers, ?_⟩
          by_cases hv : w = v
          · subst hv
            exact .of_pc (by simp) (by simp)
          · exact hstays.of_woken rfl (.inl (setPc_pc_of_ne _ _ hv))
      | wakeUp hpc => exact ⟨haway, hworkers, wakeUp_stays hstays hpc⟩
      | callPush _ => exact ⟨haway, hworkers, hstays⟩
      | callDelete _ => exact absurd (List.mem_singleton_self _) hnot.2

/-- The places of `nthreadpool_delete` in a pool without workers. -/
def DeleterPc.AtNoNode : DeleterPc → Prop
  | .setStop w | .join w => w = none
  | .free _ | .next _ => False
  | .away | .lock | .broadcast | .unlock | .returned => True

/-- Of a pool without workers, `nthreadpool_delete` joins no thread. -/
theorem joins_none_of_run [DecidableEq ι] {hist : History ι} (hrun : PoolRun p hist p')
    (hdeleter : p.deleter = .away) (hlist : p.workerList = none) :
    (p'.deleter.AtNoNode ∧ p'.workerList = none) ∧ ∀ w, .joined w ∉ ops hist := by
  induction hrun with
  | start => exact ⟨⟨by rw [hdeleter]; trivial, hlist⟩, fun w hmem => by cases hmem⟩
  | @step hist q e done q' _ hstep ih =>
      have hsplit : ops (hist ++ [(e, done)]) = ops hist ++ done := by simp [ops]
      obtain ⟨⟨hat, hnone⟩, hjoined⟩ := ih
      have hlast : (q'.deleter.AtNoNode ∧ q'.workerList = none) ∧ ∀ w, .joined w ∉ done := by
        have hm := step_ok hstep
        cases hm with
        | callback v hm =>
            have hsame := callbackMove_nodes hm
            refine ⟨⟨hsame.deleter ▸ hat, hsame.workerList.trans hnone⟩, ?_⟩
            cases hm <;> simp
        | push v hm =>
            have hsame := pushMove_nodes hm
            refine ⟨⟨hsame.deleter ▸ hat, hsame.workerList.trans hnone⟩, ?_⟩
            cases hm <;> simp
        | delete hm =>
            cases hm with
            | setStop hpc _ | join hpc _ _ | free hpc _ | next hpc _ | nextFreed hpc _ =>
                rw [hpc] at hat
                exact absurd hat (by simp [DeleterPc.AtNoNode])
            | unlock _ => exact ⟨⟨hnone, hnone⟩, by simp⟩
            | stopsSet _ | lock _ _ | broadcast _ => exact ⟨⟨trivial, hnone⟩, by simp⟩
            | done _ => exact ⟨⟨trivial, rfl⟩, by simp⟩
        | taskReturn _ | wakeUp _ | callPush _ => exact ⟨⟨hat, hnone⟩, by simp⟩
        | callDelete _ => exact ⟨⟨hnone, hnone⟩, by simp⟩
      refine ⟨hlast.1, fun w hmem => ?_⟩
      rw [hsplit, List.mem_append] at hmem
      exact hmem.elim (hjoined w) (hlast.2 w)

/-! ## All or nothing -/

/-- What `nthreadpool_creat` is to leave, for the number of workers that was
    asked for. -/
structure AllOrNothing [DecidableEq ι] (workernum : Int) (s : Creation ι) : Prop where
  /-- On success, the workers are on the list, each with its thread and with
      `stop` zero. -/
  all : s.creator = .returned 0 → ∃ ws,
    (workerLinks s.pool.workers).IsList s.pool.workerList ws ∧ (ws.length : Int) = max workernum 1 ∧
      ∀ w ∈ ws, w ∈ s.pool.started ∧ ∃ n, s.pool.workers w = some n ∧ n.stop = 0
  /-- None of them leaves before `nthreadpool_delete` is called. -/
  alive : s.creator = .returned 0 → ∀ (hist : History ι) p, PoolRun s.pool hist p →
    .deleteCalled ∉ ops hist → ∀ w ∈ s.pool.started, p.pc w ≠ .exited
  /-- On failure, the list is empty and no thread is left. -/
  nothing : s.creator = .returned (-1) →
    s.pool.workerList = none ∧ ∀ w ∈ s.pool.started, s.pool.pc w = .exited
  /-- Only threads that were started are joined later. -/
  joins : s.creator = .returned (-1) → ∀ (hist : History ι) p, PoolRun s.pool hist p →
    ∀ w, .joined w ∈ ops hist → w ∈ s.pool.started

/-- A creation that has returned is all or nothing just if it is clean. -/
theorem CreateInv.allOrNothing_iff_clean [DecidableEq ι] {workernum ret : Int} (h : CreateInv s ws)
    (hnum : s.workernum = max workernum 1) (hret : s.creator = .returned ret) :
    AllOrNothing workernum s ↔ CleanSoFar s := by
  have hc := h.creator
  rw [hret] at hc
  constructor
  · intro hall
    rcases hc with ⟨rfl, -, -⟩ | ⟨rfl, -⟩
    · obtain ⟨ws', hl, -, hstop⟩ := hall.all hret
      refine ⟨fun w n hn => ?_, fun hfail => absurd (hret.symm.trans hfail) (by simp)⟩
      have hw : w ∈ ws' := by
        rw [hl.unique h.list, h.nodes w, hn]
        simp
      obtain ⟨m, hm, hzero⟩ := (hstop w hw).2
      rw [hn] at hm
      exact Option.some.inj hm ▸ hzero
    · obtain ⟨hnone, -⟩ := hall.nothing hret
      refine ⟨fun w n hn => ?_, fun _ => hnone⟩
      have hw := (h.nodes w).mpr (by rw [hn]; simp)
      rw [h.workerList_eq_none.mp hnone] at hw
      cases hw
  · intro hclean
    rcases hc with ⟨rfl, hws, hlen⟩ | ⟨rfl, hsub⟩
    · have hnot : ∀ {P : Prop}, s.creator = .returned (-1) → P := fun hfail =>
        absurd (hret.symm.trans hfail) (by simp)
      have hstop : ∀ w ∈ ws, ∃ n, s.pool.workers w = some n ∧ n.stop = 0 := by
        intro w hw
        obtain ⟨n, hn⟩ := Option.ne_none_iff_exists'.mp ((h.nodes w).mp hw)
        exact ⟨n, hn, hclean.stop w n hn⟩
      refine ⟨fun _ => ⟨ws, h.list, hlen.trans hnum, fun w hw => ⟨hws ▸ hw, hstop w hw⟩⟩,
        fun _ hist p hrun hdel w hw => ?_, fun hfail => hnot hfail, fun hfail => hnot hfail⟩
      obtain ⟨-, hworkers, hstays⟩ := stays_of_run hrun h.deleter (h.stays w hw) hdel
      obtain ⟨n, hn, hzero⟩ := hstop w (hws ▸ hw)
      exact (hstays n (hworkers ▸ hn) (by rw [hzero]; decide)).2
    · have hnot : ∀ {P : Prop}, s.creator = .returned 0 → P := fun hok =>
        absurd (hret.symm.trans hok) (by simp)
      have hnone := hclean.failed hret
      have hstarted : ∀ w, w ∉ s.pool.started := by
        intro w hw
        have hmem := hsub hw
        rw [h.workerList_eq_none.mp hnone] at hmem
        cases hmem
      refine ⟨fun hok => hnot hok, fun hok => hnot hok,
        fun _ => ⟨hnone, fun w hw => absurd hw (hstarted w)⟩, fun _ hist p hrun w hw => ?_⟩
      exact absurd hw ((joins_none_of_run hrun h.deleter hnone).2 w)

/-- A creation that has returned is all or nothing if and only if all of its
    calls were clean. -/
theorem allOrNothing_iff [DecidableEq ι] {poolIsNull : Bool} {tasks : Links Addr}
    {workernum ret : Int} {hist : List (CreateEvent × Unit)} {s : Creation ι}
    (hrun : Run (MovesOf creatStep) (creat poolIsNull tasks workernum) hist s)
    (hret : s.creator = .returned ret) :
    AllOrNothing workernum s ↔
      Run (Guarded CleanCall (MovesOf creatStep)) (creat poolIsNull tasks workernum) hist s := by
  have hinv : (∃ ws, CreateInv s ws) ∧ s.workernum = max workernum 1 := by
    refine hrun.invariant (P := fun _ s => (∃ ws, CreateInv s ws) ∧ s.workernum = max workernum 1)
      ⟨⟨[], createInv_creat ..⟩, ?_⟩ ?_
    · show (if workernum < 1 then 1 else workernum) = max workernum 1
      split <;> omega
    · rintro _ s e _ s' ⟨⟨ws, hinv⟩, hnum⟩ hstep
      have hm := creatStep_some hstep
      exact ⟨hinv.move hm, by cases hm <;> exact hnum⟩
  obtain ⟨⟨ws, hws⟩, hnum⟩ := hinv
  rw [hws.allOrNothing_iff_clean hnum hret]
  refine hrun.iff_guarded (I := fun s => ∃ ws, CreateInv s ws) ⟨[], createInv_creat ..⟩
    ⟨fun w n hn => (by cases hn), fun _ => rfl⟩ ?_ ?_
  · rintro s e _ s' ⟨ws, hinv⟩ hstep
    exact hinv.move (creatStep_some hstep)
  · rintro s e _ s' ⟨ws, hinv⟩ hstep
    exact hinv.cleanSoFar_iff (creatStep_some hstep)

/-! ## The pool of the other modules -/

/-- The threads that were started have not taken a step. -/
structure Untouched (s : Creation ι) : Prop where
  taskList : s.pool.taskList = none
  mutex : s.pool.mutex = none
  atStart : ∀ w ∈ s.pool.started, s.pool.pc w = .lock
  others : ∀ w, w ∉ s.pool.started → s.pool.pc w = .exited
  pushers : ∀ p, s.pool.pusher p = .away

/-- It is the creator's step. -/
def CreateEvent.IsCreator : CreateEvent → Prop
  | .malloc _ | .create _ | .endLoop => True
  | .callback _ | .wakeUp _ => False

theorem Untouched.move (h : Untouched s) (hm : CreateMove s e s') (he : e.IsCreator) :
    Untouched s' := by
  cases hm with
  | @start i a hpc =>
      refine ⟨h.taskList, h.mutex, fun w hw => ?_, fun w hw => ?_, h.pushers⟩
      · by_cases hwa : w = a
        · subst hwa
          exact Function.update_self ..
        · exact (Function.update_of_ne hwa ..).trans
            (h.atStart w ((List.mem_cons.mp hw).resolve_left hwa))
      · obtain ⟨hwa, hw⟩ := not_or.mp (List.mem_cons.not.mp hw)
        exact (Function.update_of_ne hwa ..).trans (h.others w hw)
  | callback _ | wakeUp _ => exact he.elim
  | _ => exact ⟨h.taskList, h.mutex, h.atStart, h.others, h.pushers⟩

/-- Where all calls were clean and no worker has run yet, a creation that
    succeeds leaves the pool that the other results start from. -/
theorem created_of_creat {poolIsNull : Bool} {tasks : Links Addr} {workernum : Int}
    {hist : List (CreateEvent × Unit)} {s : Creation ι}
    (hrun : Run (Guarded (fun s e => CleanCall s e ∧ e.IsCreator) (MovesOf creatStep))
      (creat poolIsNull tasks workernum) hist s) (hret : s.creator = .returned 0) :
    ∃ ws, Created s.pool ws := by
  obtain ⟨⟨ws, hinv⟩, hclean, huntouched⟩ := hrun.invariant
    (P := fun _ s => (∃ ws, CreateInv s ws) ∧ CleanSoFar s ∧ Untouched s)
    ⟨⟨[], createInv_creat ..⟩, ⟨fun w n hn => (by cases hn), fun _ => rfl⟩,
      ⟨rfl, rfl, fun w hw => (by cases hw), fun _ _ => rfl, fun _ => rfl⟩⟩
    (by
      rintro _ s e _ s' ⟨⟨ws, hinv⟩, hclean, huntouched⟩ ⟨⟨hcall, he⟩, hstep⟩
      have hm := creatStep_some hstep
      exact ⟨hinv.move hm, (hinv.cleanSoFar_iff hm).mpr ⟨hclean, hcall⟩, huntouched.move hm he⟩)
  have hc := hinv.creator
  rw [hret] at hc
  obtain ⟨-, rfl, -⟩ := hc.resolve_right fun hfail => by simp at hfail
  refine ⟨_, huntouched.taskList, hinv.list, fun w hw => ?_, huntouched.mutex, rfl,
    huntouched.atStart, huntouched.others, huntouched.pushers, hinv.deleter⟩
  obtain ⟨n, hn⟩ := Option.ne_none_iff_exists'.mp ((hinv.nodes w).mp hw)
  exact ⟨n, hn, hclean.stop w n hn⟩

/-! ## Runs -/

/-- A block of zeros. -/
def zeros : Block := Vector.replicate 40 0

/-- Two workers, the first of which waits before the second is started. -/
theorem allOrNothing_of_zeros : ∃ hist, ∃ s : Creation Unit,
    Run (MovesOf creatStep) (creat false (fun _ => ⟨none, none⟩) 2) hist s ∧
      s.creator = .returned 0 ∧ AllOrNothing 2 s := by
  have hmoves : movesTo (guardMove CleanCall creatStep)
      (creat false (fun _ => ⟨none, none⟩) 2 : Creation Unit)
      [.malloc (some (1, zeros)), .create 0, .callback 1, .callback 1, .callback 1, .callback 1,
        .malloc (some (2, zeros)), .create 0, .endLoop]
      (fun s => s.creator == .returned 0) = true := by decide
  obtain ⟨s, hrun, hs⟩ := guarded_of_movesTo hmoves
  have hret : s.creator = .returned 0 := eq_of_beq hs
  exact ⟨_, s, hrun.of_guarded, hret, (allOrNothing_iff hrun.of_guarded hret).mpr hrun⟩

/-- One worker in memory where `stop` holds 1: it leaves at once.  One worker
    for which `pthread_create` fails: its node stays on the list. -/
theorem not_allOrNothing :
    (∃ hist, ∃ s : Creation Unit,
      Run (MovesOf creatStep) (creat false (fun _ => ⟨none, none⟩) 1) hist s ∧
        s.creator = .returned 0 ∧ s.pool.started = [1] ∧ s.pool.pc 1 = .exited ∧
        ¬ AllOrNothing 1 s) ∧
    ∃ hist, ∃ s : Creation Unit,
      Run (MovesOf creatStep) (creat false (fun _ => ⟨none, none⟩) 1) hist s ∧
        s.creator = .returned (-1) ∧ s.pool.workerList = some 1 ∧ ¬ AllOrNothing 1 s := by
  constructor
  · have hmoves : movesTo creatStep (creat false (fun _ => ⟨none, none⟩) 1 : Creation Unit)
        [.malloc (some (1, zeros.set 8 1)), .create 0, .endLoop, .callback 1, .callback 1,
          .callback 1, .callback 1, .callback 1]
        (fun s => decide (s.creator = .returned 0 ∧ s.pool.started = [1] ∧
          s.pool.pc 1 = .exited)) = true := by decide
    obtain ⟨s, hrun, hs⟩ := run_of_movesTo hmoves
    obtain ⟨hret, hstarted, hexited⟩ := of_decide_eq_true hs
    refine ⟨_, s, hrun, hret, hstarted, hexited, fun hall => ?_⟩
    exact hall.alive hret [] s.pool .start List.not_mem_nil 1 (by rw [hstarted]; simp) hexited
  · have hmoves : movesTo creatStep (creat false (fun _ => ⟨none, none⟩) 1 : Creation Unit)
        [.malloc (some (1, zeros)), .create 11]
        (fun s => decide (s.creator = .returned (-1) ∧ s.pool.workerList = some 1)) = true := by
      decide
    obtain ⟨s, hrun, hs⟩ := run_of_movesTo hmoves
    obtain ⟨hret, hlist⟩ := of_decide_eq_true hs
    refine ⟨_, s, hrun, hret, hlist, fun hall => ?_⟩
    have hnone := (hall.nothing hret).1
    rw [hlist] at hnone
    cases hnone

end LinuxLearning.ThreadPool
