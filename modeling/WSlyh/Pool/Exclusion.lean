import WSlyh.Pool.ThreadPool

/-! One thread at a time is between `Lock` and `Unlock`, and what the queue holds while it is. -/

namespace WSlyh.Pool

open Lib

/-- What a worker between `Lock` and `Unlock` has found out about the queue. -/
def WorkPoint.Knows {Task : Type} : WorkPoint Task → List Task → Prop
  | .entering, tasks => tasks = []
  | .fetching, tasks => tasks ≠ []
  | .popping task, tasks => tasks.head? = some task
  | _, _ => True

theorem WorkPoint.knows_outside {Task : Type} {point : WorkPoint Task} (outside : point.inside = false)
    (tasks : List Task) :
    point.Knows tasks := by
  cases point <;> trivial

namespace CThreadPool

variable {threadNum : Nat} {κ Task : Type}

/-- The thread is between `Lock` and `Unlock`. -/
def Inside (pool : CThreadPool threadNum κ Task) : Thread threadNum κ → Prop
  | .inl worker => (pool.workers worker).inside = true
  | .inr caller => (pool.callers caller).inside = true

/-- The lock is with the thread inside, and what a worker inside has found out still holds. -/
structure Guarded (pool : CThreadPool threadNum κ Task) : Prop where
  guards : Guards pool.lock pool.Inside
  knows : ∀ worker, (pool.workers worker).Knows pool.tasks

variable {pool pool' : CThreadPool threadNum κ Task}

section Move

variable (pool) (worker : Fin threadNum) (point : WorkPoint Task)

theorem workers_self : (pool.setWorker worker point).workers worker = point := Function.update_self ..

variable {worker} in
theorem workers_other (apart : other ≠ worker) : (pool.setWorker worker point).workers other = pool.workers other :=
  Function.update_of_ne apart ..

theorem inside_worker : (pool.setWorker worker point).Inside (.inl worker) ↔ point.inside = true := by
  rw [Inside, workers_self]

variable {worker} in
theorem inside_worker_other (thread : Thread threadNum κ) (apart : thread ≠ .inl worker) :
    (pool.setWorker worker point).Inside thread ↔ pool.Inside thread := by
  cases thread with
  | inl other => rw [Inside, Inside, workers_other _ _ fun same => apart (congrArg _ same)]
  | inr caller => rfl

variable [DecidableEq κ] (caller : κ) (place : AppendPoint Task)

theorem callers_self : (pool.setCaller caller place).callers caller = place := Function.update_self ..

variable {caller} in
theorem callers_other (apart : other ≠ caller) : (pool.setCaller caller place).callers other = pool.callers other :=
  Function.update_of_ne apart ..

theorem inside_caller : (pool.setCaller caller place).Inside (.inr caller) ↔ place.inside = true := by
  rw [Inside, callers_self]

variable {caller} in
theorem inside_caller_other (thread : Thread threadNum κ) (apart : thread ≠ .inr caller) :
    (pool.setCaller caller place).Inside thread ↔ pool.Inside thread := by
  cases thread with
  | inl worker => rfl
  | inr other => rw [Inside, Inside, callers_other _ _ fun same => apart (congrArg _ same)]

end Move

theorem Guarded.keepWorker (guarded : pool.Guarded) (point : WorkPoint Task)
    (same : point.inside = (pool.workers worker).inside) : Guards pool.lock (pool.setWorker worker point).Inside := by
  refine guarded.guards.keep fun thread => ?_
  by_cases here : thread = .inl worker
  · rw [here, inside_worker, same]
    rfl
  · exact inside_worker_other pool point thread here

theorem Guarded.acquireWorker (guarded : pool.Guarded) (free : pool.lock = none) (point : WorkPoint Task)
    (enters : point.inside = true) : Guards (some (.inl worker)) (pool.setWorker worker point).Inside :=
  (free ▸ guarded.guards).acquire ((inside_worker ..).mpr enters) (inside_worker_other pool point)

theorem Guarded.releaseWorker (guarded : pool.Guarded) (here : (pool.workers worker).inside = true)
    (point : WorkPoint Task) (leaves : point.inside = false) : Guards none (pool.setWorker worker point).Inside :=
  guarded.guards.release (.inl worker) here
    (fun still => Bool.false_ne_true (leaves.symm.trans ((inside_worker ..).mp still)))
      (inside_worker_other pool point)

section Caller

variable [DecidableEq κ]

theorem Guarded.keepCaller (guarded : pool.Guarded) (place : AppendPoint Task)
    (same : place.inside = (pool.callers caller).inside) : Guards pool.lock (pool.setCaller caller place).Inside := by
  refine guarded.guards.keep fun thread => ?_
  by_cases here : thread = .inr caller
  · rw [here, inside_caller, same]
    rfl
  · exact inside_caller_other pool place thread here

theorem Guarded.acquireCaller (guarded : pool.Guarded) (free : pool.lock = none) (place : AppendPoint Task)
    (enters : place.inside = true) : Guards (some (.inr caller)) (pool.setCaller caller place).Inside :=
  (free ▸ guarded.guards).acquire ((inside_caller ..).mpr enters) (inside_caller_other pool place)

theorem Guarded.releaseCaller (guarded : pool.Guarded) (here : (pool.callers caller).inside = true)
    (place : AppendPoint Task) (leaves : place.inside = false) : Guards none (pool.setCaller caller place).Inside :=
  guarded.guards.release (.inr caller) here
    (fun still => Bool.false_ne_true (leaves.symm.trans ((inside_caller ..).mp still)))
      (inside_caller_other pool place)

end Caller

theorem Guarded.moved (guarded : pool.Guarded) {point : WorkPoint Task} (knows : point.Knows pool.tasks)
    (other : Fin threadNum) : ((pool.setWorker worker point).workers other).Knows pool.tasks := by
  by_cases same : other = worker
  · rw [same, workers_self]
    exact knows
  · rw [workers_other pool point same]
    exact guarded.knows other

/-- A thread inside may change the queue: no other worker knows anything of it. -/
theorem Guarded.others (guarded : pool.Guarded) (thread : Thread threadNum κ) (here : pool.Inside thread)
    {worker : Fin threadNum} (apart : thread ≠ .inl worker) (tasks : List Task) :
    (pool.workers worker).Knows tasks := by
  refine WorkPoint.knows_outside (Bool.eq_false_of_not_eq_true fun there => apart ?_) tasks
  exact guarded.guards.unique here there

theorem mem_waiters : worker ∈ pool.waiters ↔ pool.workers worker = .waiting := by
  rw [waiters, Finset.mem_filter, and_iff_right (Finset.mem_univ worker)]
  cases pool.workers worker <;> simp [WorkPoint.isWaiting]

theorem wake_workers (pool : CThreadPool threadNum κ Task) (woken : Finset (Fin threadNum)) (worker : Fin threadNum) :
    (pool.wake woken).workers worker = if worker ∈ woken then .woken else pool.workers worker := rfl

theorem Guarded.wake (guarded : pool.Guarded) (among : woken ⊆ pool.waiters) : (pool.wake woken).Guarded := by
  refine ⟨guarded.guards.keep fun thread => ?_, fun worker => ?_⟩
  · cases thread with
    | inl worker =>
      rw [Inside, Inside, wake_workers]
      split
      · rename_i member
        rw [mem_waiters.mp (among member)]
        rfl
      · rfl
    | inr caller => rfl
  · rw [wake_workers]
    split
    · trivial
    · exact guarded.knows worker

theorem create_guarded (threadNum : Nat) (κ Task : Type) : (create threadNum κ Task).Guarded := by
  refine ⟨fun thread => ?_, fun _ => trivial⟩
  cases thread <;> exact iff_of_false Bool.false_ne_true (Option.some_ne_none _).symm

theorem Guarded.next [DecidableEq κ] (guarded : pool.Guarded) (next : pool.Next step pool') : pool'.Guarded := by
  cases next with
  | lock point free => exact ⟨guarded.acquireWorker free .testing rfl, guarded.moved trivial⟩
  | empty point none_ => exact ⟨guarded.keepWorker .entering (by rw [point]; rfl), guarded.moved none_⟩
  | nonempty point some_ => exact ⟨guarded.keepWorker .fetching (by rw [point]; rfl), guarded.moved some_⟩
  | wait point => exact ⟨guarded.releaseWorker (by rw [point]; rfl) .waiting rfl, guarded.moved trivial⟩
  | front point queue =>
    exact ⟨guarded.keepWorker (.popping _) (by rw [point]; rfl), guarded.moved (by rw [queue]; rfl)⟩
  | @pop worker task first later point queue =>
    refine ⟨guarded.keepWorker (.running task) (by rw [point]; rfl), fun other => ?_⟩
    by_cases same : other = worker
    · rw [same]
      change ((pool.setWorker worker (.running task)).workers worker).Knows later
      rw [workers_self]
      trivial
    · change ((pool.setWorker worker (.running task)).workers other).Knows later
      rw [workers_other pool _ same]
      exact guarded.others (.inl worker) (by rw [Inside, point]; rfl) (fun here => same (Sum.inl.inj here).symm) later
  | ran point => exact ⟨guarded.keepWorker .unlocking (by rw [point]; rfl), guarded.moved trivial⟩
  | unlock point => exact ⟨guarded.releaseWorker (by rw [point]; rfl) .locking rfl, guarded.moved trivial⟩
  | spurious point => exact ⟨guarded.keepWorker .woken (by rw [point]; rfl), guarded.moved trivial⟩
  | call point task => exact ⟨guarded.keepCaller (.checking task) (by rw [point]; rfl), guarded.knows⟩
  | refuse point full => exact ⟨guarded.keepCaller .outside (by rw [point]; rfl), guarded.knows⟩
  | accept point room => exact ⟨guarded.keepCaller (.locking _) (by rw [point]; rfl), guarded.knows⟩
  | enter point free => exact ⟨guarded.acquireCaller free (.pushing _) rfl, guarded.knows⟩
  | @push caller task point =>
    exact ⟨guarded.keepCaller (.unlocking task) (by rw [point]; rfl), fun other =>
      guarded.others (.inr caller) (by rw [Inside, point]; rfl) (by exact nofun) _⟩
  | leave point => exact ⟨guarded.releaseCaller (by rw [point]; rfl) (.signalling _) rfl, guarded.knows⟩
  | @signal caller task woken point among one =>
    have awake := guarded.wake among
    exact ⟨awake.keepCaller .outside (by change _ = (pool.callers caller).inside; rw [point]; rfl), awake.knows⟩

/-- With the lock in order, no step runs into a fault. -/
theorem Guarded.act [DecidableEq κ] (guarded : pool.Guarded) (done : pool.act step = some result) :
    ∃ pool', result = .ok pool' ∧ pool.Next step pool' := by
  rcases act_next done with taken | ⟨worker, none_, point | ⟨task, point⟩⟩
  · exact taken
  · have knows := guarded.knows worker
    rw [point] at knows
    exact absurd none_ knows
  · have knows := guarded.knows worker
    rw [point, none_] at knows
    cases knows

end CThreadPool

end WSlyh.Pool
