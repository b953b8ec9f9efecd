import Mathlib.Data.Finset.Card
import Mathlib.Data.Fintype.Basic
import Mathlib.Logic.Function.Basic
import WSlyh.Lib.Mutex
import WSlyh.Lib.Transition

/-! The thread pool, step by step: the workers and the callers of `Append` under the mutex and
the condition variable. -/

namespace WSlyh.Pool

open Lib

def taskNum : Nat := 100

/-- Where a worker is in `Work`. `waiting` is blocked in `m_cCond.Wait`, `woken` has left the
queue of the condition variable and takes the mutex again. -/
inductive WorkPoint (Task : Type)
  | locking
  | testing
  | entering
  | waiting
  | woken
  | fetching
  | popping (task : Task)
  | running (task : Task)
  | unlocking
  deriving DecidableEq

def WorkPoint.isWaiting {Task : Type} : WorkPoint Task → Bool
  | .waiting => true
  | _ => false

/-- The worker is between `Lock` and `Unlock`, and not in `Wait`. -/
def WorkPoint.inside {Task : Type} : WorkPoint Task → Bool
  | .locking | .waiting | .woken => false
  | _ => true

/-- Where a caller is in `Append`. -/
inductive AppendPoint (Task : Type)
  | outside
  | checking (task : Task)
  | locking (task : Task)
  | pushing (task : Task)
  | unlocking (task : Task)
  | signalling (task : Task)
  deriving DecidableEq

def AppendPoint.inside {Task : Type} : AppendPoint Task → Bool
  | .pushing _ | .unlocking _ => true
  | _ => false

/-- The task of a caller that has pushed it and not signalled yet. -/
def AppendPoint.unsignalled {Task : Type} : AppendPoint Task → Option Task
  | .unlocking task | .signalling task => some task
  | _ => none

inductive Fault
  | emptyQueue
  deriving DecidableEq, Repr

/-- A worker of the pool, or a caller of `Append`. -/
abbrev Thread (threadNum : Nat) (κ : Type) : Type := Fin threadNum ⊕ κ

/-- `started` are the tasks whose `HttpParse` has been called, `pushed` those that went into the
queue, and `returned` says what each `Append` returned; no thread reads them. -/
structure CThreadPool (threadNum : Nat) (κ Task : Type) where
  lock : Option (Thread threadNum κ)
  tasks : List Task
  workers : Fin threadNum → WorkPoint Task
  callers : κ → AppendPoint Task
  started : List Task
  pushed : List Task
  returned : List (Task × Bool)

/-- A worker's next operation, a wake-up without a signal, a call of `Append`, the caller's next
operation, or its `Signal`, with the workers that it wakes. -/
inductive PoolStep (threadNum : Nat) (κ Task : Type)
  | work (worker : Fin threadNum)
  | spurious (worker : Fin threadNum)
  | call (caller : κ) (task : Task)
  | append (caller : κ)
  | signal (caller : κ) (woken : Finset (Fin threadNum))

namespace CThreadPool

variable {threadNum : Nat} {κ Task : Type}

/-- `threadNum` workers are created, and nobody calls. -/
def create (threadNum : Nat) (κ Task : Type) : CThreadPool threadNum κ Task where
  lock := none
  tasks := []
  workers _ := .locking
  callers _ := .outside
  started := []
  pushed := []
  returned := []

def setWorker (pool : CThreadPool threadNum κ Task) (worker : Fin threadNum) (point : WorkPoint Task) :
    CThreadPool threadNum κ Task :=
  { pool with workers := Function.update pool.workers worker point }

def setCaller [DecidableEq κ] (pool : CThreadPool threadNum κ Task) (caller : κ) (point : AppendPoint Task) :
    CThreadPool threadNum κ Task :=
  { pool with callers := Function.update pool.callers caller point }

/-- The queue of the condition variable. -/
def waiters (pool : CThreadPool threadNum κ Task) : Finset (Fin threadNum) :=
  Finset.univ.filter fun worker => (pool.workers worker).isWaiting

/-- The workers that a signal wakes go on. -/
def wake (pool : CThreadPool threadNum κ Task) (woken : Finset (Fin threadNum)) : CThreadPool threadNum κ Task :=
  { pool with workers := fun worker => if worker ∈ woken then .woken else pool.workers worker }

/-- A worker's next operation. `front` and `pop` want a queue that is not empty. -/
def work (pool : CThreadPool threadNum κ Task) (worker : Fin threadNum) :
    Option (Except Fault (CThreadPool threadNum κ Task)) :=
  match pool.workers worker with
  | .locking =>
    if pool.lock.isNone then some (.ok { pool.setWorker worker .testing with lock := some (.inl worker) }) else none
  | .testing => some (.ok (pool.setWorker worker (if pool.tasks.isEmpty then .entering else .fetching)))
  | .entering => some (.ok { pool.setWorker worker .waiting with lock := none })
  | .waiting => none
  | .woken =>
    if pool.lock.isNone then some (.ok { pool.setWorker worker .testing with lock := some (.inl worker) }) else none
  | .fetching =>
    match pool.tasks with
    | [] => some (.error .emptyQueue)
    | task :: _ => some (.ok (pool.setWorker worker (.popping task)))
  | .popping task =>
    match pool.tasks with
    | [] => some (.error .emptyQueue)
    | _ :: tasks =>
      some (.ok { pool.setWorker worker (.running task) with tasks, started := pool.started ++ [task] })
  | .running _ => some (.ok (pool.setWorker worker .unlocking))
  | .unlocking => some (.ok { pool.setWorker worker .locking with lock := none })

/-- A caller's next operation, up to its `Signal`. The size is looked at without the mutex. -/
def append [DecidableEq κ] (pool : CThreadPool threadNum κ Task) (caller : κ) :
    Option (CThreadPool threadNum κ Task) :=
  match pool.callers caller with
  | .outside => none
  | .checking task =>
    if pool.tasks.length ≥ taskNum then
      some { pool.setCaller caller .outside with returned := pool.returned ++ [(task, false)] }
    else some (pool.setCaller caller (.locking task))
  | .locking task =>
    if pool.lock.isNone then some { pool.setCaller caller (.pushing task) with lock := some (.inr caller) } else none
  | .pushing task =>
    some { pool.setCaller caller (.unlocking task) with
      tasks := pool.tasks ++ [task]
      pushed := pool.pushed ++ [task] }
  | .unlocking task => some { pool.setCaller caller (.signalling task) with lock := none }
  | .signalling _ => none

/-- `Signal` wakes a waiter at least if there is one, and is forgotten if there is none. -/
def signal [DecidableEq κ] (pool : CThreadPool threadNum κ Task) (caller : κ) (woken : Finset (Fin threadNum)) :
    Option (CThreadPool threadNum κ Task) :=
  match pool.callers caller with
  | .signalling task =>
    if woken ⊆ pool.waiters ∧ (woken = ∅ → pool.waiters = ∅) then
      some { (pool.wake woken).setCaller caller .outside with returned := pool.returned ++ [(task, true)] }
    else none
  | _ => none

def act [DecidableEq κ] (pool : CThreadPool threadNum κ Task) :
    PoolStep threadNum κ Task → Option (Except Fault (CThreadPool threadNum κ Task))
  | .work worker => pool.work worker
  | .spurious worker =>
    match pool.workers worker with
    | .waiting => some (.ok (pool.setWorker worker .woken))
    | _ => none
  | .call caller task =>
    match pool.callers caller with
    | .outside => some (.ok (pool.setCaller caller (.checking task)))
    | _ => none
  | .append caller => (pool.append caller).map .ok
  | .signal caller woken => (pool.signal caller woken).map .ok

end CThreadPool

/-- The runs of a pool with this many workers. -/
def poolSystem (threadNum : Nat) (κ Task : Type) [DecidableEq κ] :
    System (CThreadPool threadNum κ Task) (PoolStep threadNum κ Task) where
  init pool := pool = .create threadNum κ Task
  step pool step pool' := pool.act step = some (.ok pool')

namespace CThreadPool

variable {threadNum : Nat} {κ Task : Type} [DecidableEq κ]

/-- All that a step can do to the pool. -/
inductive Next (pool : CThreadPool threadNum κ Task) :
    PoolStep threadNum κ Task → CThreadPool threadNum κ Task → Prop
  | lock (point : pool.workers worker = .locking ∨ pool.workers worker = .woken) (free : pool.lock = none) :
    pool.Next (.work worker) { pool.setWorker worker .testing with lock := some (.inl worker) }
  | empty (point : pool.workers worker = .testing) (none_ : pool.tasks = []) :
    pool.Next (.work worker) (pool.setWorker worker .entering)
  | nonempty (point : pool.workers worker = .testing) (some_ : pool.tasks ≠ []) :
    pool.Next (.work worker) (pool.setWorker worker .fetching)
  | wait (point : pool.workers worker = .entering) :
    pool.Next (.work worker) { pool.setWorker worker .waiting with lock := none }
  | front (point : pool.workers worker = .fetching) (queue : pool.tasks = task :: later) :
    pool.Next (.work worker) (pool.setWorker worker (.popping task))
  | pop (point : pool.workers worker = .popping task) (queue : pool.tasks = first :: later) :
    pool.Next (.work worker)
      { pool.setWorker worker (.running task) with tasks := later, started := pool.started ++ [task] }
  | ran (point : pool.workers worker = .running task) : pool.Next (.work worker) (pool.setWorker worker .unlocking)
  | unlock (point : pool.workers worker = .unlocking) :
    pool.Next (.work worker) { pool.setWorker worker .locking with lock := none }
  | spurious (point : pool.workers worker = .waiting) : pool.Next (.spurious worker) (pool.setWorker worker .woken)
  | call (point : pool.callers caller = .outside) (task : Task) :
    pool.Next (.call caller task) (pool.setCaller caller (.checking task))
  | refuse (point : pool.callers caller = .checking task) (full : pool.tasks.length ≥ taskNum) :
    pool.Next (.append caller) { pool.setCaller caller .outside with returned := pool.returned ++ [(task, false)] }
  | accept (point : pool.callers caller = .checking task) (room : pool.tasks.length < taskNum) :
    pool.Next (.append caller) (pool.setCaller caller (.locking task))
  | enter (point : pool.callers caller = .locking task) (free : pool.lock = none) :
    pool.Next (.append caller) { pool.setCaller caller (.pushing task) with lock := some (.inr caller) }
  | push (point : pool.callers caller = .pushing task) :
    pool.Next (.append caller)
      { pool.setCaller caller (.unlocking task) with tasks := pool.tasks ++ [task], pushed := pool.pushed ++ [task] }
  | leave (point : pool.callers caller = .unlocking task) :
    pool.Next (.append caller) { pool.setCaller caller (.signalling task) with lock := none }
  | signal (point : pool.callers caller = .signalling task) (among : woken ⊆ pool.waiters)
    (one : woken = ∅ → pool.waiters = ∅) :
    pool.Next (.signal caller woken)
      { (pool.wake woken).setCaller caller .outside with returned := pool.returned ++ [(task, true)] }

variable {pool pool' : CThreadPool threadNum κ Task}

theorem work_next (done : pool.work worker = some result) :
    (∃ pool', result = .ok pool' ∧ pool.Next (.work worker) pool') ∨
      result = .error .emptyQueue ∧ pool.tasks = [] ∧
        (pool.workers worker = .fetching ∨ ∃ task, pool.workers worker = .popping task) := by
  unfold work at done
  split at done
  · rename_i point
    split at done
    · rename_i free
      obtain rfl := Option.some.inj done
      exact .inl ⟨_, rfl, .lock (.inl point) (Option.isNone_iff_eq_none.mp free)⟩
    · cases done
  · rename_i point
    obtain rfl := Option.some.inj done
    refine .inl ⟨_, rfl, ?_⟩
    split
    · rename_i none_
      exact .empty point (List.isEmpty_iff.mp none_)
    · rename_i some_
      exact .nonempty point (fun none_ => some_ (List.isEmpty_iff.mpr none_))
  · rename_i point
    obtain rfl := Option.some.inj done
    exact .inl ⟨_, rfl, .wait point⟩
  · cases done
  · rename_i point
    split at done
    · rename_i free
      obtain rfl := Option.some.inj done
      exact .inl ⟨_, rfl, .lock (.inr point) (Option.isNone_iff_eq_none.mp free)⟩
    · cases done
  · rename_i point
    split at done
    · rename_i none_
      exact .inr ⟨(Option.some.inj done).symm, none_, .inl point⟩
    · rename_i queue
      obtain rfl := Option.some.inj done
      exact .inl ⟨_, rfl, .front point queue⟩
  · rename_i point
    split at done
    · rename_i none_
      exact .inr ⟨(Option.some.inj done).symm, none_, .inr ⟨_, point⟩⟩
    · rename_i queue
      obtain rfl := Option.some.inj done
      exact .inl ⟨_, rfl, .pop point queue⟩
  · rename_i point
    obtain rfl := Option.some.inj done
    exact .inl ⟨_, rfl, .ran point⟩
  · rename_i point
    obtain rfl := Option.some.inj done
    exact .inl ⟨_, rfl, .unlock point⟩

theorem append_next (done : pool.append caller = some pool') : pool.Next (.append caller) pool' := by
  unfold append at done
  split at done
  · cases done
  · rename_i point
    split at done
    · rename_i full
      obtain rfl := Option.some.inj done
      exact .refuse point full
    · rename_i room
      obtain rfl := Option.some.inj done
      exact .accept point (not_le.mp room)
  · rename_i point
    split at done
    · rename_i free
      obtain rfl := Option.some.inj done
      exact .enter point (Option.isNone_iff_eq_none.mp free)
    · cases done
  · rename_i point
    obtain rfl := Option.some.inj done
    exact .push point
  · rename_i point
    obtain rfl := Option.some.inj done
    exact .leave point
  · cases done

theorem signal_next (done : pool.signal caller woken = some pool') : pool.Next (.signal caller woken) pool' := by
  unfold signal at done
  split at done
  · rename_i point
    split at done
    · rename_i may
      obtain rfl := Option.some.inj done
      exact .signal point may.1 may.2
    · cases done
  · cases done

/-- A step is one of these, or looks for a task in an empty queue. -/
theorem act_next (done : pool.act step = some result) :
    (∃ pool', result = .ok pool' ∧ pool.Next step pool') ∨
      ∃ worker, pool.tasks = [] ∧ (pool.workers worker = .fetching ∨ ∃ task, pool.workers worker = .popping task) := by
  cases step with
  | work worker =>
    rcases work_next done with ⟨pool', same, next⟩ | ⟨_, none_, point⟩
    · exact .inl ⟨pool', same, next⟩
    · exact .inr ⟨worker, none_, point⟩
  | spurious worker =>
    simp only [act] at done
    split at done
    · rename_i point
      obtain rfl := Option.some.inj done
      exact .inl ⟨_, rfl, .spurious point⟩
    · cases done
  | call caller task =>
    simp only [act] at done
    split at done
    · rename_i point
      obtain rfl := Option.some.inj done
      exact .inl ⟨_, rfl, .call point task⟩
    · cases done
  | append caller =>
    obtain ⟨pool', taken, rfl⟩ := Option.map_eq_some_iff.mp done
    exact .inl ⟨pool', rfl, append_next taken⟩
  | signal caller woken =>
    obtain ⟨pool', taken, rfl⟩ := Option.map_eq_some_iff.mp done
    exact .inl ⟨pool', rfl, signal_next taken⟩

end CThreadPool

end WSlyh.Pool
