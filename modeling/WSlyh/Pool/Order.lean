import WSlyh.Pool.Exclusion

/-! With one thread that calls `Append`, the pool runs every task it accepts once and in order. -/

namespace WSlyh.Pool

open Lib

/-- The tasks of the calls that returned true, in order. -/
def acceptedTasks {Task : Type} (returned : List (Task × Bool)) : List Task := (returned.filter Prod.snd).map Prod.fst

theorem acceptedTasks_append {Task : Type} (returned : List (Task × Bool)) (task : Task) (ret : Bool) :
    acceptedTasks (returned ++ [(task, ret)]) = acceptedTasks returned ++ if ret then [task] else [] := by
  cases ret <;> simp [acceptedTasks, List.filter_append]

namespace CThreadPool

variable {threadNum : Nat} {Task : Type}

/-- What was pushed was started in that order or is still queued; a task was pushed if its call
returned true, or will when it has signalled. -/
structure InOrder (pool : CThreadPool threadNum Unit Task) : Prop where
  order : pool.started ++ pool.tasks = pool.pushed
  accepted : pool.pushed = acceptedTasks pool.returned ++ (pool.callers ()).unsignalled.toList
  oneRunning : ∀ worker worker' task task', pool.workers worker = .running task →
    pool.workers worker' = .running task' → worker = worker'
  bounded : pool.tasks.length ≤ taskNum
  noFault : ∀ step fault, pool.act step ≠ some (.error fault)

/-- The room that the caller has seen in the queue is still there. -/
def Roomy (pool : CThreadPool threadNum Unit Task) : Prop :=
  match pool.callers () with
  | .locking _ | .pushing _ => pool.tasks.length < taskNum
  | _ => pool.tasks.length ≤ taskNum

structure Queued (pool : CThreadPool threadNum Unit Task) : Prop where
  guarded : pool.Guarded
  order : pool.started ++ pool.tasks = pool.pushed
  accepted : pool.pushed = acceptedTasks pool.returned ++ (pool.callers ()).unsignalled.toList
  roomy : pool.Roomy

variable {pool pool' : CThreadPool threadNum Unit Task}

theorem Roomy.bounded (roomy : pool.Roomy) : pool.tasks.length ≤ taskNum := by
  unfold Roomy at roomy
  split at roomy
  · exact roomy.le
  · exact roomy.le
  · exact roomy

theorem Roomy.shrink (roomy : pool.Roomy) (callers : pool'.callers = pool.callers)
    (fewer : pool'.tasks.length ≤ pool.tasks.length) : pool'.Roomy := by
  unfold Roomy at roomy ⊢
  rw [callers]
  split at roomy
  · exact fewer.trans_lt roomy
  · exact fewer.trans_lt roomy
  · exact fewer.trans roomy

theorem Queued.next (queued : pool.Queued) (next : pool.Next step pool') : pool'.Queued := by
  have guarded := queued.guarded.next next
  obtain ⟨before, order, accepted, roomy⟩ := queued
  cases next with
  | lock | empty | nonempty | wait | front | ran | unlock | spurious =>
    exact ⟨guarded, order, accepted, roomy.shrink rfl le_rfl⟩
  | @pop worker task first later point queue =>
    have head := before.knows worker
    rw [point, queue] at head
    obtain rfl := Option.some.inj head
    refine ⟨guarded, ?_, accepted, roomy.shrink rfl (by simp [queue])⟩
    change pool.started ++ [first] ++ later = pool.pushed
    rw [← order, queue, List.append_assoc]
    rfl
  | @call _ point task =>
    rw [point] at accepted
    exact ⟨guarded, order, accepted, roomy.bounded⟩
  | @refuse _ task point full =>
    rw [point] at accepted
    refine ⟨guarded, order, accepted.trans ?_, roomy.bounded⟩
    change acceptedTasks pool.returned ++ [] = acceptedTasks (pool.returned ++ [(task, false)]) ++ []
    rw [acceptedTasks_append, if_neg Bool.false_ne_true, List.append_nil, List.append_nil]
  | accept point room =>
    rw [point] at accepted
    exact ⟨guarded, order, accepted, room⟩
  | enter point free =>
    rw [point] at accepted
    rw [Roomy, point] at roomy
    exact ⟨guarded, order, accepted, roomy⟩
  | @push _ task point =>
    rw [point] at accepted
    rw [Roomy, point] at roomy
    refine ⟨guarded, ?_, ?_, ?_⟩
    · change pool.started ++ (pool.tasks ++ [task]) = pool.pushed ++ [task]
      rw [← order, List.append_assoc]
    · change pool.pushed ++ [task] = acceptedTasks pool.returned ++ [task]
      rw [accepted]
      exact congrArg (· ++ [task]) (List.append_nil _)
    · change (pool.tasks ++ [task]).length ≤ taskNum
      rw [List.length_append]
      exact roomy
  | leave point =>
    rw [point] at accepted
    exact ⟨guarded, order, accepted, roomy.bounded⟩
  | @signal _ task _ point =>
    rw [point] at accepted
    refine ⟨guarded, order, accepted.trans ?_, roomy.bounded⟩
    change acceptedTasks pool.returned ++ [task] = acceptedTasks (pool.returned ++ [(task, true)]) ++ []
    rw [acceptedTasks_append, if_pos rfl, List.append_nil]

theorem reachable_queued (reachable : (poolSystem threadNum Unit Task).Reachable (fun _ _ => True) pool) :
    pool.Queued := by
  refine reachable.invariant Queued ?_ ?_
  · rintro _ rfl
    exact ⟨create_guarded threadNum Unit Task, rfl, rfl, Nat.zero_le _⟩
  · intro pool step pool' queued _ done
    obtain ⟨_, same, next⟩ := queued.guarded.act done
    exact Except.ok.inj same ▸ queued.next next

end CThreadPool

/-- The pool runs every accepted task exactly once, in order. -/
theorem inOrder_of_reachable {threadNum : Nat} {Task : Type} {pool : CThreadPool threadNum Unit Task}
    (reachable : (poolSystem threadNum Unit Task).Reachable (fun _ _ => True) pool) : pool.InOrder := by
  have queued := CThreadPool.reachable_queued reachable
  refine ⟨queued.order, queued.accepted, fun worker worker' task task' here there => ?_, queued.roomy.bounded,
    fun step fault failed => ?_⟩
  · have inside {worker : Fin threadNum} {task : Task} (running : pool.workers worker = .running task) :
        pool.Inside (.inl worker) := by
      rw [CThreadPool.Inside, running]
      rfl
    exact Sum.inl.inj (queued.guarded.guards.unique (inside here) (inside there))
  · obtain ⟨_, same, _⟩ := queued.guarded.act failed
    cases same

/-- Two tasks are appended and the first is taken, after a wake-up without a signal. -/
def twoTasks : List (PoolStep 2 Unit Nat) :=
  [.work 0, .work 0, .work 0, .spurious 0, .call () 7, .append (), .append (), .append (), .append (), .signal () ∅,
    .call () 8, .append (), .append (), .append (), .append (), .signal () ∅, .work 0, .work 0, .work 0, .work 0]

theorem twoTasks_inOrder : ∃ pool : CThreadPool 2 Unit Nat, pool.started = [7] ∧ pool.tasks = [8] ∧
    pool.workers 0 = .running 7 ∧ pool.InOrder := by
  have checked : ((System.Reachable.follow CThreadPool.act (fun _ _ => true) (.create 2 Unit Nat) twoTasks).any
      fun pool => pool.started == [7] && pool.tasks == [8] && pool.workers 0 == .running 7) = true := by
    decide +kernel
  obtain ⟨pool, followed, state⟩ := (Option.any_eq_true ..).mp checked
  simp only [Bool.and_eq_true, beq_iff_eq] at state
  exact ⟨pool, state.1.1, state.1.2, state.2, inOrder_of_reachable
    (System.Reachable.followed (.init rfl) (fun _ _ _ _ => trivial) (fun _ _ _ => id) followed)⟩

end WSlyh.Pool
