import Mathlib.Algebra.BigOperators.Fin
import Mathlib.Algebra.Order.BigOperators.Group.Finset
import WSlyh.Lib.Progress
import WSlyh.Pool.Wakeup

/-! The pool gets done what it has accepted. However the threads are scheduled, a pool that
nobody calls any more comes to rest, and then every task has been run. -/

namespace WSlyh.Pool

open Lib

/-- A step by which a thread goes on with what it has begun, without a new call and without a
wake-up that nobody has caused. -/
def PoolStep.GoesOn {threadNum : Nat} {κ Task : Type} : PoolStep threadNum κ Task → Prop
  | .work _ | .append _ | .signal _ _ => True
  | .spurious _ | .call _ _ => False

/-- The operations until the worker waits or has a task in hand. For a task it has six more, from the
moment at which it sees that there is one. -/
def WorkPoint.due {Task : Type} : WorkPoint Task → Nat
  | .waiting | .popping _ => 0
  | .entering | .fetching => 1
  | .testing => 2
  | .locking | .woken => 3
  | .unlocking => 4
  | .running _ => 5

/-- The operations until the caller is outside, together with those that its task and its signal
cause: the signal may wake all the workers. -/
def AppendPoint.due {Task : Type} (threadNum : Nat) : AppendPoint Task → Nat
  | .outside => 0
  | .signalling _ => 3 * threadNum + 1
  | .unlocking _ => 3 * threadNum + 2
  | .pushing _ => 3 * threadNum + 9
  | .locking _ => 3 * threadNum + 10
  | .checking _ => 3 * threadNum + 11

namespace CThreadPool

variable {threadNum : Nat} {κ Task : Type}

/-- A bound on the steps that are left. -/
def remaining [Fintype κ] (pool : CThreadPool threadNum κ Task) : Nat :=
  6 * pool.tasks.length + ∑ worker, (pool.workers worker).due + ∑ caller, (pool.callers caller).due threadNum

/-- Every task that was pushed has been run, and all the threads are back. -/
structure Finished (pool : CThreadPool threadNum κ Task) : Prop where
  tasks : pool.tasks = []
  ran : pool.started = pool.pushed
  workers : ∀ worker, pool.workers worker = .waiting
  callers : ∀ caller, pool.callers caller = .outside

/-- What the reachable states of a pool keep. -/
structure Sound (pool : CThreadPool threadNum κ Task) : Prop where
  guarded : pool.Guarded
  attended : pool.Attended
  order : pool.started ++ pool.tasks = pool.pushed

variable {pool pool' : CThreadPool threadNum κ Task}

/-- Only `pop` and `push` touch the queue. -/
theorem Guarded.order [DecidableEq κ] (guarded : pool.Guarded) (order : pool.started ++ pool.tasks = pool.pushed)
    (next : pool.Next step pool') : pool'.started ++ pool'.tasks = pool'.pushed := by
  cases next with
  | @pop worker task first later point queue =>
    have head := guarded.knows worker
    rw [point, queue] at head
    obtain rfl := Option.some.inj head
    change pool.started ++ [first] ++ later = pool.pushed
    rw [← order, queue, List.append_assoc]
    rfl
  | @push caller task point =>
    change pool.started ++ (pool.tasks ++ [task]) = pool.pushed ++ [task]
    rw [← order, List.append_assoc]
  | lock | empty | nonempty | wait | front | ran | unlock | spurious
  | call | refuse | accept | enter | leave | signal =>
    exact order

theorem Sound.act [DecidableEq κ] (positive : 1 ≤ threadNum) (sound : pool.Sound)
    (done : pool.act step = some (.ok pool')) : pool'.Sound := by
  obtain ⟨_, same, next⟩ := sound.guarded.act done
  obtain rfl := Except.ok.inj same
  exact ⟨sound.guarded.next next, sound.attended.next positive sound.guarded next,
    sound.guarded.order sound.order next⟩

theorem reachable_sound [DecidableEq κ] (positive : 1 ≤ threadNum)
    (reachable : (poolSystem threadNum κ Task).Reachable (fun _ _ => True) pool) : pool.Sound := by
  refine reachable.invariant Sound ?_ fun _ _ _ sound _ done => sound.act positive done
  rintro _ rfl
  exact ⟨create_guarded threadNum κ Task, fun some_ => absurd rfl some_, rfl⟩

section Measure

variable [Fintype κ]

theorem remaining_worker (pool : CThreadPool threadNum κ Task) (worker : Fin threadNum) (point : WorkPoint Task) :
    (pool.setWorker worker point).remaining + (pool.workers worker).due = pool.remaining + point.due := by
  have changed := sum_update pool.workers (Finset.mem_univ worker) point WorkPoint.due
  simp only [remaining, setWorker]
  omega

theorem remaining_caller [DecidableEq κ] (pool : CThreadPool threadNum κ Task) (caller : κ)
    (place : AppendPoint Task) :
    (pool.setCaller caller place).remaining + (pool.callers caller).due threadNum =
      pool.remaining + place.due threadNum := by
  have changed := sum_update pool.callers (Finset.mem_univ caller) place (AppendPoint.due threadNum)
  simp only [remaining, setCaller]
  omega

/-- Three operations for every worker that a signal wakes. -/
theorem remaining_wake (pool : CThreadPool threadNum κ Task) (woken : Finset (Fin threadNum)) :
    (pool.wake woken).remaining ≤ pool.remaining + 3 * threadNum := by
  have each : ∀ worker ∈ Finset.univ, ((pool.wake woken).workers worker).due ≤ (pool.workers worker).due + 3 := by
    intro worker _
    rw [wake_workers]
    split
    · exact Nat.le_add_left ..
    · exact Nat.le_add_right ..
  have all := Finset.sum_le_sum each
  rw [Finset.sum_add_distrib, Finset.sum_const, Finset.card_univ, Fintype.card_fin, smul_eq_mul] at all
  have same : (pool.wake woken).remaining = 6 * pool.tasks.length +
    ∑ worker, ((pool.wake woken).workers worker).due + ∑ caller, (pool.callers caller).due threadNum := rfl
  rw [same, remaining]
  omega

/-- Every step that goes on with something uses up one unit at least. -/
theorem Next.spends [DecidableEq κ] (next : pool.Next step pool') (onward : step.GoesOn) :
    pool'.remaining < pool.remaining := by
  have moves {worker : Fin threadNum} {point : WorkPoint Task} (here : pool.workers worker = point)
      (there : WorkPoint Task) (less : there.due < point.due) :
      (pool.setWorker worker there).remaining < pool.remaining := by
    have moved := pool.remaining_worker worker there
    rw [here] at moved
    omega
  have goes {caller : κ} {place : AppendPoint Task} (here : pool.callers caller = place) (there : AppendPoint Task)
      (less : there.due threadNum < place.due threadNum) :
      (pool.setCaller caller there).remaining < pool.remaining := by
    have moved := pool.remaining_caller caller there
    rw [here] at moved
    omega
  cases next with
  | lock point free =>
    rcases point with point | point
    · exact moves point .testing (by simp [WorkPoint.due])
    · exact moves point .testing (by simp [WorkPoint.due])
  | empty point none_ => exact moves point .entering (by simp [WorkPoint.due])
  | nonempty point some_ => exact moves point .fetching (by simp [WorkPoint.due])
  | wait point => exact moves point .waiting (by simp [WorkPoint.due])
  | front point queue => exact moves point (.popping _) (by simp [WorkPoint.due])
  | @pop worker task first later point queue =>
    have moved := pool.remaining_worker worker (.running task)
    rw [point] at moved
    have fewer : pool.tasks.length = later.length + 1 := by rw [queue, List.length_cons]
    simp only [remaining, setWorker, WorkPoint.due] at moved ⊢
    omega
  | ran point => exact moves point .unlocking (by simp [WorkPoint.due])
  | unlock point => exact moves point .locking (by simp [WorkPoint.due])
  | spurious point => exact onward.elim
  | call point task => exact onward.elim
  | refuse point full => exact goes point .outside (by simp [AppendPoint.due])
  | accept point room => exact goes point (.locking _) (by simp [AppendPoint.due])
  | enter point free => exact goes point (.pushing _) (by simp [AppendPoint.due])
  | @push caller task point =>
    have moved := pool.remaining_caller caller (.unlocking task)
    rw [point] at moved
    simp only [remaining, setCaller, AppendPoint.due, List.length_append, List.length_singleton] at moved ⊢
    omega
  | leave point => exact goes point (.signalling _) (by simp [AppendPoint.due])
  | @signal caller task woken point among one =>
    have woken_ := pool.remaining_wake woken
    have moved := (pool.wake woken).remaining_caller caller .outside
    change _ + (pool.callers caller).due threadNum = _ at moved
    rw [point] at moved
    change ((pool.wake woken).setCaller caller .outside).remaining < _
    simp only [AppendPoint.due] at moved
    omega

end Measure

section Rest

variable [DecidableEq κ]

/-- A thread that holds the lock can go on. -/
theorem Guarded.inside_goesOn (guarded : pool.Guarded) (here : pool.Inside thread) :
    ∃ step pool', step.GoesOn ∧ pool.act step = some (.ok pool') := by
  cases thread with
  | inl worker =>
    have enabled : ∃ result, pool.act (.work worker) = some result := by
      change (pool.workers worker).inside = true at here
      simp only [CThreadPool.act, work]
      cases point : pool.workers worker <;> rw [point] at here <;> simp only [WorkPoint.inside] at here ⊢
      case locking | waiting | woken => cases here
      case fetching => cases pool.tasks <;> exact ⟨_, rfl⟩
      case popping => cases pool.tasks <;> exact ⟨_, rfl⟩
      all_goals exact ⟨_, rfl⟩
    obtain ⟨result, done⟩ := enabled
    obtain ⟨pool', rfl, _⟩ := guarded.act done
    exact ⟨.work worker, pool', show PoolStep.GoesOn (.work worker) from trivial, done⟩
  | inr caller =>
    suffices enabled : ∃ pool', pool.act (.append caller) = some (.ok pool') from
      enabled.elim fun pool' done => ⟨.append caller, pool', show PoolStep.GoesOn (.append caller) from trivial, done⟩
    change (pool.callers caller).inside = true at here
    simp only [CThreadPool.act, append]
    cases place : pool.callers caller <;> rw [place] at here <;> simp only [AppendPoint.inside] at here ⊢
    case outside | checking | locking | signalling => cases here
    all_goals exact ⟨_, rfl⟩

/-- With the lock free, a worker that cannot go on waits. -/
theorem Guarded.worker_waits (guarded : pool.Guarded) (free : pool.lock = none)
    (rest : ∀ step pool', step.GoesOn → pool.act step ≠ some (.ok pool')) (worker : Fin threadNum) :
    pool.workers worker = .waiting := by
  have outside : ¬ pool.Inside (.inl worker) := Guards.outside (free ▸ guarded.guards) _
  have enters (point : pool.workers worker = .locking ∨ pool.workers worker = .woken) : False := by
    have done : pool.act (.work worker) =
        some (.ok { pool.setWorker worker .testing with lock := some (.inl worker) }) := by
      simp only [CThreadPool.act, work]
      rcases point with point | point <;> simp only [point, free, Option.isNone_none, if_true]
    exact rest _ _ (show PoolStep.GoesOn (.work worker) from trivial) done
  change ¬ (pool.workers worker).inside = true at outside
  cases point : pool.workers worker with
  | waiting => rfl
  | locking => exact (enters (.inl point)).elim
  | woken => exact (enters (.inr point)).elim
  | testing | entering | fetching | popping | running | unlocking =>
    rw [point] at outside
    exact absurd rfl outside

theorem Guarded.caller_outside (guarded : pool.Guarded) (free : pool.lock = none)
    (rest : ∀ step pool', step.GoesOn → pool.act step ≠ some (.ok pool')) (caller : κ) :
    pool.callers caller = .outside := by
  have inside : ¬ pool.Inside (.inr caller) := Guards.outside (free ▸ guarded.guards) _
  change ¬ (pool.callers caller).inside = true at inside
  -- The caller could go on.
  have moves (taken : ∃ pool', pool.append caller = some pool') : False := by
    obtain ⟨pool', taken⟩ := taken
    exact rest (.append caller) pool' (show PoolStep.GoesOn (.append caller) from trivial)
      (Option.map_eq_some_iff.mpr ⟨pool', taken, rfl⟩)
  cases place : pool.callers caller with
  | outside => rfl
  | checking task =>
    by_cases full : pool.tasks.length ≥ taskNum
    · exact (moves ⟨_, by rw [append, place]; exact if_pos full⟩).elim
    · exact (moves ⟨_, by rw [append, place]; exact if_neg full⟩).elim
  | locking task => exact (moves ⟨_, by rw [append, place, free]; rfl⟩).elim
  | signalling task =>
    have taken : pool.signal caller pool.waiters = some
        { (pool.wake pool.waiters).setCaller caller .outside with returned := pool.returned ++ [(task, true)] } := by
      rw [signal, place]
      exact if_pos ⟨Finset.Subset.refl _, id⟩
    exact (rest (.signal caller pool.waiters) _ (show PoolStep.GoesOn (.signal caller pool.waiters) from trivial)
      (Option.map_eq_some_iff.mpr ⟨_, taken, rfl⟩)).elim
  | pushing | unlocking =>
    rw [place] at inside
    exact absurd rfl inside

/-- No thread is stuck halfway. -/
theorem Sound.finished (sound : pool.Sound)
    (rest : ∀ step pool', step.GoesOn → pool.act step ≠ some (.ok pool')) : pool.Finished := by
  have free : pool.lock = none := by
    cases lock : pool.lock with
    | none => rfl
    | some thread =>
      obtain ⟨step, pool', onward, done⟩ := sound.guarded.inside_goesOn ((sound.guarded.guards thread).mpr lock)
      exact absurd done (rest step pool' onward)
  have workers := sound.guarded.worker_waits free rest
  have callers := sound.guarded.caller_outside free rest
  have tasks : pool.tasks = [] := by
    apply Classical.byContradiction
    intro some_
    rcases sound.attended some_ with ⟨caller, due⟩ | ⟨worker, awake⟩
    · rw [callers caller] at due
      exact due rfl
    · exact awake (workers worker)
  refine ⟨tasks, ?_, workers, callers⟩
  rw [← sound.order, tasks, List.append_nil]

end Rest

end CThreadPool

/-- From every reachable state, whatever the scheduler does: without further calls and spurious
wake-ups the pool comes to rest, and then all tasks have been run. -/
theorem settles_of_reachable {threadNum : Nat} {κ Task : Type} [Fintype κ] [DecidableEq κ] (positive : 1 ≤ threadNum)
    {pool : CThreadPool threadNum κ Task}
    (reachable : (poolSystem threadNum κ Task).Reachable (fun _ _ => True) pool) :
    ((poolSystem threadNum κ Task).only fun _ step => step.GoesOn).Settles pool pool.remaining
      CThreadPool.Finished := by
  have winds : ((poolSystem threadNum κ Task).only fun _ step => step.GoesOn).Winds
      fun pool n => pool.Sound ∧ pool.remaining = n := by
    rintro pool step pool' _ ⟨sound, rfl⟩ ⟨onward, done⟩
    obtain ⟨_, same, next⟩ := sound.guarded.act done
    obtain rfl := Except.ok.inj same
    exact ⟨_, next.spends onward, sound.act positive done, rfl⟩
  refine winds.settles (fun pool _ ranked rest => ?_) ⟨CThreadPool.reachable_sound positive reachable, rfl⟩
  exact ranked.1.finished fun step pool' onward done => rest step pool' ⟨onward, done⟩

/-- With the signal for one task still due there are ten steps left at most. -/
theorem lateSignal_settles : ∃ pool : CThreadPool 1 Unit Nat, pool.tasks = [7] ∧ pool.callers () = .signalling 7 ∧
    ((poolSystem 1 Unit Nat).only fun _ step => step.GoesOn).Settles pool 10 CThreadPool.Finished := by
  have checked : ((System.Reachable.follow CThreadPool.act (fun _ _ => true) (.create 1 Unit Nat) lateSignal).any
      fun pool => pool.tasks == [7] && pool.callers () == .signalling 7 && pool.remaining == 10) = true := by
    decide +kernel
  obtain ⟨pool, followed, state⟩ := (Option.any_eq_true ..).mp checked
  simp only [Bool.and_eq_true, beq_iff_eq] at state
  have settles := settles_of_reachable le_rfl
    (System.Reachable.followed (.init rfl) (fun _ _ _ _ => trivial) (fun _ _ _ => id) followed)
  rw [state.2] at settles
  exact ⟨pool, state.1.1, state.1.2, settles⟩

end WSlyh.Pool
