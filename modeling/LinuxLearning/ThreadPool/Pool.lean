/-
  LinuxLearning.ThreadPool.Pool

  The data model of `thread_pool.c` and the steps of its threads: the workers
  in `nthreadpool_callback`, any number of threads in `nthreadpool_push`, and
  one in `nthreadpool_delete`.

  A step is what a thread does between two points at which another thread
  could notice it: a mutex or condition-variable call, a read or write of a
  `stop` flag (which `nthreadpool_delete` writes without the mutex), an access
  to the list of tasks under the mutex, the call of a task.
-/

import LinuxLearning.Lib.LinkedList
import LinuxLearning.Lib.Monitor
import LinuxLearning.Lib.Table
import LinuxLearning.Lib.Transition

namespace LinuxLearning.ThreadPool

open Lib

variable {ι : Type}

/-! ## The threads -/

/-- Where a worker is in `nthreadpool_callback`. -/
inductive WorkerPc where
  /-- `pthread_mutex_lock` -/
  | lock
  /-- `while (w->manager->task_list == NULL)` -/
  | testList
  /-- `if (w->stop == 1) break;` -/
  | testStopInWait
  /-- `pthread_cond_wait` -/
  | wait
  /-- In `pthread_cond_wait`, the mutex released, not signalled yet. -/
  | waiting
  /-- Signalled, and still in `pthread_cond_wait` until it has the mutex. -/
  | woken
  /-- `if (w->stop == 1)` behind the loop. -/
  | testStop
  /-- The unlock of a worker that leaves. -/
  | unlockStop
  /-- `t=w->manager->task_list; List_delete(t,w->manager->task_list);` -/
  | pop
  /-- The unlock of a worker that took a task. -/
  | unlockTask (t : Addr)
  /-- `t->task_func(t);` -/
  | call (t : Addr)
  /-- In the task's function. -/
  | running (t : Addr)
  /-- The thread has returned, or there is none. -/
  | exited
deriving DecidableEq, Repr

/-- Where a thread is in `nthreadpool_push(pool, t)`. -/
inductive PusherPc where
  | away
  | lock (t : Addr)
  | insert (t : Addr)
  | signal (t : Addr)
  | unlock (t : Addr)
deriving DecidableEq, Repr

/-- Where a thread is in `nthreadpool_delete`. -/
inductive DeleterPc where
  | away
  /-- The loop that sets the stop flags, at node `w`. -/
  | setStop (w : Option Addr)
  | lock
  | broadcast
  | unlock
  /-- `while (w!=NULL)`, and `pthread_join` of a node. -/
  | join (w : Option Addr)
  /-- `free(w)`, with `tmp=w`. -/
  | free (w : Addr)
  /-- `w=tmp->next` -/
  | next (tmp : Addr)
  | returned
deriving DecidableEq, Repr

/-- The threads of a program that uses one pool. -/
inductive PoolThread (ι : Type) where
  | worker (w : Addr)
  | pusher (p : ι)
  | deleter
deriving DecidableEq, Repr

def WorkerPc.stance : WorkerPc → Stance
  | .lock | .woken | .call _ | .running _ | .exited => .outside
  | .testList | .testStopInWait | .wait | .testStop | .unlockStop | .pop | .unlockTask _ => .inside
  | .waiting => .asleep

def PusherPc.stance : PusherPc → Stance
  | .away | .lock _ => .outside
  | .insert _ | .signal _ | .unlock _ => .inside

def DeleterPc.stance : DeleterPc → Stance
  | .away | .setStop _ | .lock | .join _ | .free _ | .next _ | .returned => .outside
  | .broadcast | .unlock => .inside

/-! ## The pool -/

/-- `worker`; its `manager` is the one pool, its `thread_id` the thread of
    this node. -/
structure Worker where
  stop : Int
  link : Link Addr
deriving DecidableEq, Repr

/-- A `threadpool` with the memory and the threads around it. -/
structure Pool (ι : Type) where
  taskList : Option Addr
  /-- The link fields of the task nodes. -/
  tasks : Links Addr
  workerList : Option Addr
  /-- The memory of the worker nodes; `none` where nothing is allocated. -/
  workers : Addr → Option Worker
  mutex : Option (PoolThread ι)
  /-- The worker nodes a thread was started for. -/
  started : List Addr
  pc : Addr → WorkerPc
  pusher : ι → PusherPc
  deleter : DeleterPc

def Pool.stance (s : Pool ι) : PoolThread ι → Stance
  | .worker w => (s.pc w).stance
  | .pusher p => (s.pusher p).stance
  | .deleter => s.deleter.stance

/-- The links of the worker nodes. -/
def workerLinks (workers : Addr → Option Worker) : Links Addr := fun a =>
  match workers a with
  | some n => n.link
  | none => { next := none, prev := none }

/-- What a step did, as far as the results below speak about it. -/
inductive Op where
  /-- `List_insert` of a task. -/
  | inserted (t : Addr)
  /-- `nthreadpool_push` returned 0. -/
  | pushed (t : Addr)
  /-- A worker took the task off the list. -/
  | popped (w t : Addr)
  /-- A worker called the task's function. -/
  | called (w t : Addr)
  /-- The function returned. -/
  | executed (w t : Addr)
  /-- A worker entered `pthread_cond_wait`. -/
  | waits (w : Addr)
  | deleteCalled
  | broadcast
  | joined (w : Addr)
  | freed (w : Addr)
  /-- The node was read after it was freed. -/
  | readFreed (w : Addr)
  /-- `nthreadpool_delete` returned 0. -/
  | deleteReturned
deriving DecidableEq, Repr

/-- Why a thread does not take a step. -/
inductive Fault where
  /-- It is not there, or has to wait. -/
  | blocked
  /-- It follows a pointer that points to nothing. -/
  | segv
deriving DecidableEq, Repr

/-- What happens next. -/
inductive Event (ι : Type) where
  /-- The worker's thread goes on in `nthreadpool_callback`. -/
  | callback (w : Addr)
  /-- The task of the worker returns; whatever it left in the memory of its
      node. -/
  | taskReturn (w : Addr) (left : Link Addr)
  /-- A wake-up without a signal. -/
  | wakeUp (w : Addr)
  | callPush (p : ι) (t : Addr)
  /-- The thread goes on in `nthreadpool_push`; a signal goes to `woken`. -/
  | push (p : ι) (woken : Option Addr)
  | callDelete
  /-- The thread goes on in `nthreadpool_delete`; freed memory reads as
      `garbage`. -/
  | delete (garbage : Option Addr)
deriving DecidableEq, Repr

namespace Pool

/-- The worker `w` moves on. -/
def setPc (s : Pool ι) (w : Addr) (pc : WorkerPc) : Pool ι :=
  { s with pc := Function.update s.pc w pc }

/-- The pushing thread `p` moves on. -/
def setPusher [DecidableEq ι] (s : Pool ι) (p : ι) (pc : PusherPc) : Pool ι :=
  { s with pusher := Function.update s.pusher p pc }

/-- Everyone who waits on the condition is woken. -/
def wakeAll (s : Pool ι) : Pool ι :=
  { s with pc := fun w => if s.pc w = .waiting then .woken else s.pc w }

end Pool

/-! ## The steps of the three functions -/

/-- The next step of a worker in `nthreadpool_callback`. -/
def callbackStep (s : Pool ι) (w : Addr) : Except Fault (Pool ι × List Op) :=
  match s.pc w with
  | .lock | .woken =>
      match s.mutex with
      | none => .ok ({ s with mutex := some (.worker w) }.setPc w .testList, [])
      | some _ => .error .blocked
  | .testList =>
      match s.taskList with
      | none => .ok (s.setPc w .testStopInWait, [])
      | some _ => .ok (s.setPc w .testStop, [])
  | .testStopInWait =>
      match s.workers w with
      | none => .error .segv
      | some n => .ok (s.setPc w (if n.stop = 1 then .testStop else .wait), [])
  | .wait => .ok ({ s with mutex := none }.setPc w .waiting, [.waits w])
  | .testStop =>
      match s.workers w with
      | none => .error .segv
      | some n => .ok (s.setPc w (if n.stop = 1 then .unlockStop else .pop), [])
  | .unlockStop => .ok ({ s with mutex := none }.setPc w .exited, [])
  | .pop =>
      match s.taskList with
      -- `t->next` of the null pointer
      | none => .error .segv
      | some t =>
          let r := s.tasks.unlink s.taskList t
          .ok ({ s with tasks := r.1, taskList := r.2 }.setPc w (.unlockTask t), [.popped w t])
  | .unlockTask t => .ok ({ s with mutex := none }.setPc w (.call t), [])
  | .call t => .ok (s.setPc w (.running t), [.called w t])
  | .waiting | .running _ | .exited => .error .blocked

/-- May the signal go to `woken`?  To someone who waits, if anyone does. -/
def Pool.SignalTo (s : Pool ι) : Option Addr → Prop
  | some w => s.pc w = .waiting
  | none => ∀ w ∈ s.started, s.pc w ≠ .waiting

instance (s : Pool ι) : (woken : Option Addr) → Decidable (s.SignalTo woken)
  | some w => inferInstanceAs (Decidable (s.pc w = .waiting))
  | none => inferInstanceAs (Decidable (∀ w ∈ s.started, s.pc w ≠ .waiting))

/-- `pthread_cond_signal`, to `woken`. -/
def Pool.signal (s : Pool ι) : Option Addr → Pool ι
  | some w => s.setPc w .woken
  | none => s

/-- The next step of a thread in `nthreadpool_push`. -/
def pushStep [DecidableEq ι] (s : Pool ι) (p : ι) (woken : Option Addr) :
    Except Fault (Pool ι × List Op) :=
  match s.pusher p with
  | .away => .error .blocked
  | .lock t =>
      match s.mutex with
      | none => .ok ({ s with mutex := some (.pusher p) }.setPusher p (.insert t), [])
      | some _ => .error .blocked
  | .insert t =>
      let r := s.tasks.pushFront s.taskList t
      .ok ({ s with tasks := r.1, taskList := r.2 }.setPusher p (.signal t), [.inserted t])
  | .signal t =>
      if s.SignalTo woken then .ok ((s.signal woken).setPusher p (.unlock t), [])
      else .error .blocked
  | .unlock t => .ok ({ s with mutex := none }.setPusher p .away, [.pushed t])

/-- The next step of the thread in `nthreadpool_delete`. -/
def deleteStep (s : Pool ι) (garbage : Option Addr) : Except Fault (Pool ι × List Op) :=
  match s.deleter with
  | .away | .returned => .error .blocked
  | .setStop none => .ok ({ s with deleter := .lock }, [])
  | .setStop (some a) =>
      match s.workers a with
      | none => .error .segv
      | some n =>
          .ok ({ s with workers := Function.update s.workers a (some { n with stop := 1 })
                        deleter := .setStop n.link.next }, [])
  | .lock =>
      match s.mutex with
      | none => .ok ({ s with mutex := some .deleter, deleter := .broadcast }, [])
      | some _ => .error .blocked
  | .broadcast => .ok ({ s.wakeAll with deleter := .unlock }, [.broadcast])
  | .unlock => .ok ({ s with mutex := none, deleter := .join s.workerList }, [])
  | .join none => .ok ({ s with workerList := none, deleter := .returned }, [.deleteReturned])
  | .join (some a) =>
      match s.workers a with
      | none => .error .segv
      | some _ =>
          if s.pc a = .exited then .ok ({ s with deleter := .free a }, [.joined a])
          else .error .blocked
  | .free a =>
      match s.workers a with
      | none => .error .segv
      | some _ =>
          .ok ({ s with workers := Function.update s.workers a none, deleter := .next a },
            [.freed a])
  | .next a =>
      match s.workers a with
      | none => .ok ({ s with deleter := .join garbage }, [.readFreed a])
      | some n => .ok ({ s with deleter := .join n.link.next }, [])

/-- One step. -/
def step [DecidableEq ι] (s : Pool ι) : Event ι → Except Fault (Pool ι × List Op)
  | .callback w => callbackStep s w
  | .taskReturn w left =>
      match s.pc w with
      | .running t =>
          .ok ({ s with tasks := Function.update s.tasks t left }.setPc w .lock, [.executed w t])
      | _ => .error .blocked
  | .wakeUp w => if s.pc w = .waiting then .ok (s.setPc w .woken, []) else .error .blocked
  | .callPush p t =>
      match s.pusher p with
      | .away => .ok (s.setPusher p (.lock t), [])
      | _ => .error .blocked
  | .push p woken => pushStep s p woken
  | .callDelete =>
      match s.deleter with
      | .away => .ok ({ s with deleter := .setStop s.workerList }, [.deleteCalled])
      | _ => .error .blocked
  | .delete garbage => deleteStep s garbage

/-- The steps of a run with what they did, oldest first. -/
abbrev History (ι : Type) := List (Event ι × List Op)

/-- `hist` leads from `s₀` to `s`. -/
abbrev PoolRun [DecidableEq ι] (s₀ : Pool ι) (hist : History ι) (s : Pool ι) : Prop :=
  Run (StepsOf step) s₀ hist s

/-- What was done in a run. -/
def ops (hist : History ι) : List Op := hist.flatMap Prod.snd

/-- The pool as `nthreadpool_creat` leaves it, with the workers `ws`, each with
    `stop` zero, and with no other thread in it. -/
structure Created (s : Pool ι) (ws : List Addr) : Prop where
  taskList : s.taskList = none
  workers : (workerLinks s.workers).IsList s.workerList ws
  stop : ∀ w ∈ ws, ∃ n, s.workers w = some n ∧ n.stop = 0
  mutex : s.mutex = none
  started : s.started = ws
  atStart : ∀ w ∈ ws, s.pc w = .lock
  others : ∀ w, w ∉ ws → s.pc w = .exited
  pushers : ∀ p, s.pusher p = .away
  deleter : s.deleter = .away

/-- A pool of the workers `ws`, whose nodes were put on the list one by
    one. -/
def Pool.create (ws : List Addr) : Pool ι where
  taskList := none
  tasks := fun _ => { next := none, prev := none }
  workerList := (Links.build ws).2
  workers := fun a => if a ∈ ws then some { stop := 0, link := (Links.build ws).1 a } else none
  mutex := none
  started := ws
  pc := fun a => if a ∈ ws then .lock else .exited
  pusher := fun _ => .away
  deleter := .away

theorem created_create {ws : List Addr} (h : ws.Nodup) : Created (Pool.create ws : Pool ι) ws where
  taskList := rfl
  workers := (Links.isList_build h).congr fun a ha => by simp [workerLinks, Pool.create, ha]
  stop := fun w hw => ⟨_, if_pos hw, rfl⟩
  mutex := rfl
  started := rfl
  atStart := fun _ hw => if_pos hw
  others := fun _ hw => if_neg hw
  pushers := fun _ => rfl
  deleter := rfl

end LinuxLearning.ThreadPool
