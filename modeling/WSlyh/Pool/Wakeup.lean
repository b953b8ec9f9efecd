import WSlyh.Pool.Exclusion

/-! No wake-up is lost: a queue that is not empty has a signal on its way to it or a worker that
is awake. -/

namespace WSlyh.Pool

open Lib

namespace CThreadPool

variable {threadNum : Nat} {κ Task : Type}

/-- There are tasks, no signal is due, and every worker is blocked. -/
def Stuck (pool : CThreadPool threadNum κ Task) : Prop :=
  pool.tasks ≠ [] ∧ (∀ caller, (pool.callers caller).unsignalled = none) ∧ ∀ worker, pool.workers worker = .waiting

/-- Some worker is awake or will be signalled, when there are tasks. -/
def Attended (pool : CThreadPool threadNum κ Task) : Prop :=
  pool.tasks ≠ [] →
    (∃ caller, (pool.callers caller).unsignalled ≠ none) ∨ ∃ worker, pool.workers worker ≠ .waiting

variable {pool pool' : CThreadPool threadNum κ Task}

/-- A worker that has moved on is awake. -/
theorem attended_worker (point : WorkPoint Task) (awake : point ≠ .waiting)
    (here : pool'.workers worker = point) : pool'.Attended := fun _ => .inr ⟨worker, here ▸ awake⟩

/-- A caller that was not to signal leaves the others as they are. -/
theorem Attended.callerMoves [DecidableEq κ] (attended : pool.Attended)
    (quiet : (pool.callers caller).unsignalled = none)
    (place : AppendPoint Task) : (pool.setCaller caller place).Attended := by
  intro some_
  rcases attended some_ with ⟨other, due⟩ | awake
  · have apart : other ≠ caller := fun same => due (same ▸ quiet)
    exact .inl ⟨other, by rw [callers_other pool place apart]; exact due⟩
  · exact .inr awake

/-- A signal wakes a worker, unless they are all awake. -/
theorem wake_awake (positive : 1 ≤ threadNum) (one : woken = ∅ → pool.waiters = ∅) :
    ∃ worker, (pool.wake woken).workers worker ≠ .waiting := by
  by_cases nobody : woken = ∅
  · refine ⟨⟨0, positive⟩, fun waits => ?_⟩
    rw [wake_workers, nobody, if_neg (Finset.notMem_empty _)] at waits
    have waiter := mem_waiters.mpr waits
    rw [one nobody] at waiter
    exact Finset.notMem_empty _ waiter
  · obtain ⟨worker, member⟩ := Finset.nonempty_iff_ne_empty.mpr nobody
    refine ⟨worker, fun waits => ?_⟩
    rw [wake_workers, if_pos member] at waits
    cases waits

theorem Attended.next [DecidableEq κ] (positive : 1 ≤ threadNum) (attended : pool.Attended) (guarded : pool.Guarded)
    (next : pool.Next step pool') : pool'.Attended := by
  cases next with
  | lock point free => exact attended_worker .testing nofun (workers_self ..)
  | empty point none_ => exact attended_worker .entering nofun (workers_self ..)
  | nonempty point some_ => exact attended_worker .fetching nofun (workers_self ..)
  | @wait worker point =>
    -- The queue cannot have been filled since the worker looked, as it has held the lock.
    have none_ := guarded.knows worker
    rw [point] at none_
    exact fun some_ => absurd none_ some_
  | front point queue => exact attended_worker (.popping _) nofun (workers_self ..)
  | pop point queue => exact attended_worker (.running _) nofun (workers_self ..)
  | ran point => exact attended_worker .unlocking nofun (workers_self ..)
  | unlock point => exact attended_worker .locking nofun (workers_self ..)
  | spurious point => exact attended_worker .woken nofun (workers_self ..)
  | call point task => exact attended.callerMoves (by rw [point]; rfl) _
  | refuse point full => exact attended.callerMoves (by rw [point]; rfl) _
  | accept point room => exact attended.callerMoves (by rw [point]; rfl) _
  | enter point free => exact attended.callerMoves (by rw [point]; rfl) _
  | @push caller task point =>
    refine fun _ => .inl ⟨caller, ?_⟩
    change ((pool.setCaller caller (.unlocking task)).callers caller).unsignalled ≠ none
    rw [callers_self]
    exact Option.some_ne_none task
  | @leave caller task point =>
    refine fun _ => .inl ⟨caller, ?_⟩
    change ((pool.setCaller caller (.signalling task)).callers caller).unsignalled ≠ none
    rw [callers_self]
    exact Option.some_ne_none task
  | signal point among one => exact fun _ => .inr (wake_awake positive one)

theorem reachable_attended [DecidableEq κ] (positive : 1 ≤ threadNum)
    (reachable : (poolSystem threadNum κ Task).Reachable (fun _ _ => True) pool) : pool.Guarded ∧ pool.Attended := by
  refine reachable.invariant (fun pool => pool.Guarded ∧ pool.Attended) ?_ ?_
  · rintro _ rfl
    exact ⟨create_guarded threadNum κ Task, fun some_ => absurd rfl some_⟩
  · rintro pool step pool' ⟨guarded, attended⟩ _ done
    obtain ⟨_, same, next⟩ := guarded.act done
    obtain rfl := Except.ok.inj same
    exact ⟨guarded.next next, attended.next positive guarded next⟩

end CThreadPool

/-- No wake-up is lost, with any number of callers. -/
theorem not_stuck_of_reachable {threadNum : Nat} {κ Task : Type} [DecidableEq κ] (positive : 1 ≤ threadNum)
    {pool : CThreadPool threadNum κ Task}
    (reachable : (poolSystem threadNum κ Task).Reachable (fun _ _ => True) pool) : ¬ pool.Stuck := by
  rintro ⟨some_, quiet, blocked⟩
  rcases (CThreadPool.reachable_attended positive reachable).2 some_ with ⟨caller, due⟩ | ⟨worker, awake⟩
  · exact due (quiet caller)
  · exact awake (blocked worker)

/-- The worker waits, a task is pushed, and the signal is due. -/
def lateSignal : List (PoolStep 1 Unit Nat) :=
  [.work 0, .work 0, .work 0, .call () 7, .append (), .append (), .append (), .append ()]

theorem lateSignal_not_stuck : ∃ pool : CThreadPool 1 Unit Nat, pool.tasks = [7] ∧ pool.workers 0 = .waiting ∧
    pool.callers () = .signalling 7 ∧ ¬ pool.Stuck := by
  have checked : ((System.Reachable.follow CThreadPool.act (fun _ _ => true) (.create 1 Unit Nat) lateSignal).any
      fun pool => pool.tasks == [7] && pool.workers 0 == .waiting && pool.callers () == .signalling 7) = true := by
    decide +kernel
  obtain ⟨pool, followed, state⟩ := (Option.any_eq_true ..).mp checked
  simp only [Bool.and_eq_true, beq_iff_eq] at state
  exact ⟨pool, state.1.1, state.1.2, state.2, not_stuck_of_reachable le_rfl
    (System.Reachable.followed (.init rfl) (fun _ _ _ _ => trivial) (fun _ _ _ => id) followed)⟩

end WSlyh.Pool
