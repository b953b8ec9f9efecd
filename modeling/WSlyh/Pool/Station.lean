import Mathlib.Algebra.BigOperators.Fin
import WSlyh.Lib.Station
import WSlyh.Pool.Order
import WSlyh.Pool.Progress

/-! With all its workers the pool is one server with a queue: a task runs under the lock. -/

namespace WSlyh.Pool

open Lib

/-- The task that the worker runs. -/
def WorkPoint.task? {Task : Type} : WorkPoint Task → Option Task
  | .running task => some task
  | _ => none

/-- The caller has found room in the queue and not used it yet. -/
def AppendPoint.claims {Task : Type} : AppendPoint Task → Nat
  | .locking _ | .pushing _ => 1
  | _ => 0

namespace CThreadPool

variable {threadNum : Nat} {κ Task : Type}

/-- The task that is being run, by the worker with the lock. -/
def serving (pool : CThreadPool threadNum κ Task) : Option Task :=
  match pool.lock with
  | some (.inl worker) => (pool.workers worker).task?
  | _ => none

def station (pool : CThreadPool threadNum κ Task) : Station Task := ⟨pool.tasks, pool.serving⟩

/-- What a step of a thread is to the station: a push, a `pop` or the end of a task. -/
def service (pool : CThreadPool threadNum κ Task) : PoolStep threadNum κ Task → Option (Service Task)
  | .work worker =>
    match pool.workers worker with
    | .popping task => some (.begin task)
    | .running task => some (.finish task)
    | _ => none
  | .append caller =>
    match pool.callers caller with
    | .pushing task => some (.arrive task)
    | _ => none
  | _ => none

/-- A caller looks at the size without the lock, so that all the callers but one can come in beyond
`taskNum`. -/
structure Crowded [Fintype κ] (pool : CThreadPool threadNum κ Task) : Prop where
  guarded : pool.Guarded
  within : pool.tasks.length + ∑ caller, (pool.callers caller).claims ≤ taskNum + Fintype.card κ - 1

variable {pool pool' : CThreadPool threadNum κ Task}

theorem claims_setCaller [Fintype κ] [DecidableEq κ] (point : pool.callers caller = before)
    (place : AppendPoint Task) :
    ∑ other, ((pool.setCaller caller place).callers other).claims + before.claims =
      ∑ other, (pool.callers other).claims + place.claims :=
  point ▸ sum_update pool.callers (Finset.mem_univ caller) place AppendPoint.claims

/-- A caller without a claim is one that the others' claims do not count. -/
theorem claims_lt [Fintype κ] [DecidableEq κ] (caller : κ) (free : (pool.callers caller).claims = 0) :
    ∑ other, (pool.callers other).claims < Fintype.card κ := by
  have each : ∀ other ∈ Finset.univ, (pool.callers other).claims ≤ 1 := by
    intro other _
    cases pool.callers other <;> simp [AppendPoint.claims]
  have less := Finset.sum_lt_sum each ⟨caller, Finset.mem_univ caller, by rw [free]; exact Nat.zero_lt_one⟩
  rw [Finset.sum_const, Finset.card_univ, smul_eq_mul, Nat.mul_one] at less
  exact less

section Step

variable [Fintype κ] [DecidableEq κ]

theorem Crowded.sameClaims (crowded : pool.Crowded) (point : pool.callers caller = before) (place : AppendPoint Task)
    (same : place.claims = before.claims) :
    pool.tasks.length + ∑ other, ((pool.setCaller caller place).callers other).claims ≤
      taskNum + Fintype.card κ - 1 := by
  have moved := claims_setCaller point place
  have within := crowded.within
  omega

theorem Crowded.next (crowded : pool.Crowded) (next : pool.Next step pool') : pool'.Crowded := by
  refine ⟨crowded.guarded.next next, ?_⟩
  have within := crowded.within
  cases next with
  | lock | empty | nonempty | wait | front | ran | unlock | spurious => exact within
  | @pop worker task first later point queue =>
    rw [queue, List.length_cons] at within
    change later.length + ∑ other, (pool.callers other).claims ≤ _
    omega
  | call point task => exact crowded.sameClaims point (.checking task) rfl
  | refuse point full => exact crowded.sameClaims point .outside rfl
  | @accept caller task point room =>
    have others := pool.claims_lt caller (by rw [point]; rfl)
    have more := claims_setCaller point (.locking task)
    change _ + 0 = _ + 1 at more
    change pool.tasks.length + _ ≤ _
    omega
  | enter point free => exact crowded.sameClaims point (.pushing _) rfl
  | @push caller task point =>
    have fewer := claims_setCaller point (.unlocking task)
    change _ + 1 = _ + 0 at fewer
    change (pool.tasks ++ [task]).length +
      ∑ other, ((pool.setCaller caller (.unlocking task)).callers other).claims ≤ _
    rw [List.length_append, List.length_singleton]
    omega
  | leave point => exact crowded.sameClaims point (.signalling _) rfl
  | signal point among one => exact crowded.sameClaims point .outside rfl

/-- The queue has room for a task that is on its way. -/
theorem Crowded.room (crowded : pool.Crowded) (point : pool.callers caller = .pushing task) :
    pool.tasks.length < taskNum + Fintype.card κ - 1 := by
  have fewer := claims_setCaller point .outside
  change _ + 1 = _ + 0 at fewer
  have within := crowded.within
  omega

end Step

section Serving

/-- Moves of a worker that neither begins nor ends a task. -/
theorem serving_setWorker (same : point.task? = (pool.workers worker).task?) :
    (pool.setWorker worker point).serving = pool.serving := by
  unfold serving
  change (match pool.lock with
    | some (.inl other) => ((pool.setWorker worker point).workers other).task?
    | _ => none) = _
  split
  · rename_i other _
    by_cases here : other = worker
    · rw [here, workers_self, same]
    · rw [workers_other pool point here]
  · rfl

theorem serving_wake (among : woken ⊆ pool.waiters) : (pool.wake woken).serving = pool.serving := by
  unfold serving
  change (match pool.lock with | some (.inl other) => ((pool.wake woken).workers other).task? | _ => none) = _
  split
  · rw [wake_workers]
    split
    · rename_i member
      rw [mem_waiters.mp (among member)]
      rfl
    · rfl
  · rfl

theorem serving_free (free : pool.lock = none) : pool.serving = none := by
  rw [serving, free]

theorem Guarded.serving_worker (guarded : pool.Guarded) (worker : Fin threadNum)
    (here : (pool.workers worker).inside = true) :
    pool.serving = (pool.workers worker).task? := by
  rw [serving, (guarded.guards (.inl worker)).mp here]

theorem Guarded.serving_caller (guarded : pool.Guarded) (caller : κ) (here : (pool.callers caller).inside = true) :
    pool.serving = none := by
  rw [serving, (guarded.guards (.inr caller)).mp here]

end Serving

/-- Seen from outside, every step is a service or nothing. -/
theorem Crowded.services [Fintype κ] [DecidableEq κ] (crowded : pool.Crowded) (next : pool.Next step pool') :
    (pool.service step = none ∧ pool'.station = pool.station) ∨ ∃ service, pool.service step = some service ∧
      pool.station.Serves (taskNum + Fintype.card κ - 1) service pool'.station := by
  have guarded := crowded.guarded
  have guarded' := guarded.next next
  have unseen (quiet : pool.service step = none) (tasks : pool'.tasks = pool.tasks)
      (same : pool'.serving = pool.serving) : pool.service step = none ∧ pool'.station = pool.station :=
    ⟨quiet, by rw [station, station, tasks, same]⟩
  cases next with
  | @lock worker point free =>
    refine .inl (unseen ?_ rfl ?_)
    · rcases point with point | point <;> rw [service, point]
    · rw [serving_free free, guarded'.serving_worker worker (by rw [workers_self]; rfl)]
      change ((pool.setWorker worker .testing).workers worker).task? = none
      rw [workers_self]
      rfl
  | empty point none_ => exact .inl (unseen (by rw [service, point]) rfl (serving_setWorker (by rw [point]; rfl)))
  | nonempty point some_ => exact .inl (unseen (by rw [service, point]) rfl (serving_setWorker (by rw [point]; rfl)))
  | @wait worker point =>
    refine .inl (unseen (by rw [service, point]) rfl ?_)
    rw [serving_free rfl, guarded.serving_worker worker (by rw [point]; rfl), point]
    rfl
  | front point queue => exact .inl (unseen (by rw [service, point]) rfl (serving_setWorker (by rw [point]; rfl)))
  | @pop worker task first later point queue =>
    have head := guarded.knows worker
    rw [point, queue] at head
    obtain rfl := Option.some.inj head
    refine .inr ⟨.begin first, by rw [service, point], ?_, queue, ?_⟩
    · change pool.serving = none
      rw [guarded.serving_worker worker (by rw [point]; rfl), point]
      rfl
    · change CThreadPool.serving _ = _
      rw [guarded'.serving_worker worker (by rw [workers_self]; rfl)]
      change ((pool.setWorker worker (.running first)).workers worker).task? = _
      rw [workers_self]
      rfl
  | @ran worker task point =>
    refine .inr ⟨.finish task, by rw [service, point], ?_, ?_⟩
    · change pool.serving = _
      rw [guarded.serving_worker worker (by rw [point]; rfl), point]
      rfl
    · change Station.mk pool.tasks _ = Station.mk pool.tasks none
      rw [guarded'.serving_worker worker (by rw [workers_self]; rfl), workers_self]
      rfl
  | @unlock worker point =>
    refine .inl (unseen (by rw [service, point]) rfl ?_)
    rw [serving_free rfl, guarded.serving_worker worker (by rw [point]; rfl), point]
    rfl
  | spurious point => exact .inl (unseen rfl rfl (serving_setWorker (by rw [point]; rfl)))
  | call point task => exact .inl (unseen rfl rfl rfl)
  | refuse point full => exact .inl (unseen (by rw [service, point]) rfl rfl)
  | accept point room => exact .inl (unseen (by rw [service, point]) rfl rfl)
  | @enter caller task point free =>
    refine .inl (unseen (by rw [service, point]) rfl ?_)
    rw [serving_free free]
    rfl
  | @push caller task point => exact .inr ⟨.arrive task, by rw [service, point], crowded.room point, rfl⟩
  | @leave caller task point =>
    refine .inl (unseen (by rw [service, point]) rfl ?_)
    rw [serving_free rfl, guarded.serving_caller caller (by rw [point]; rfl)]
  | signal point among one => exact .inl (unseen rfl rfl (serving_wake among))

/-- The pool is a station. -/
theorem abstracts (threadNum : Nat) (κ Task : Type) [Fintype κ] [DecidableEq κ] :
    Abstracts (poolSystem threadNum κ Task)
      (stationSystem Task (taskNum + Fintype.card κ - 1)) Crowded station service := by
  refine ⟨?_, fun pool step pool' crowded done => ?_, fun pool step pool' crowded done quiet => ?_,
    fun pool step pool' shown crowded done seen => ?_⟩
  · rintro _ rfl
    refine ⟨⟨create_guarded threadNum κ Task, ?_⟩, rfl⟩
    have none_ : ∑ caller, ((create threadNum κ Task).callers caller).claims = 0 := Finset.sum_eq_zero fun _ _ => rfl
    rw [none_]
    exact Nat.zero_le _
  all_goals
    obtain ⟨_, same, next⟩ := crowded.guarded.act done
    obtain rfl := Except.ok.inj same
  · exact crowded.next next
  · rcases crowded.services next with ⟨_, same⟩ | ⟨_, some_, _⟩
    · exact same
    · rw [quiet] at some_
      cases some_
  · rcases crowded.services next with ⟨none_, _⟩ | ⟨_, some_, serves⟩
    · rw [seen] at none_
      cases none_
    · rw [seen] at some_
      exact Option.some.inj some_ ▸ serves

end CThreadPool

/-- Every run of the pool, with any number of workers and callers, is a run of a station, and its tasks are
begun and finished one by one in the order of their arrival. -/
theorem serves_of_observed {threadNum : Nat} {κ Task : Type} [Fintype κ] [DecidableEq κ]
    {steps : List (PoolStep threadNum κ Task)} {services : List (Service Task)} {pool : CThreadPool threadNum κ Task}
    (observed : (poolSystem threadNum κ Task).Observed CThreadPool.service
      (.create threadNum κ Task) steps services pool) :
    (stationSystem Task (taskNum + Fintype.card κ - 1)).Run ⟨[], none⟩ services pool.station ∧
      pool.station.Accounts (taskNum + Fintype.card κ - 1) services := by
  have run := ((CThreadPool.abstracts threadNum κ Task).trace rfl observed).2
  exact ⟨run, Station.accounts_of_run run⟩

/-- Both callers push, and one of the two workers has taken the first task. -/
def twoCallers : List (PoolStep 2 Bool Nat) :=
  [.call false 7, .call true 8, .append true, .append false, .append true, .append true, .append true, .append false,
    .append false, .append false, .work (.last 1), .work (.last 1), .work (.last 1), .work (.last 1)]

theorem twoCallers_serves : ∃ pool : CThreadPool 2 Bool Nat, pool.station = ⟨[7], some 8⟩ ∧
    pool.station.Accounts 101 [.arrive 8, .arrive 7, .begin 8] := by
  have checked : ((System.observe CThreadPool.act CThreadPool.service (.create 2 Bool Nat) twoCallers).any fun seen =>
      seen.1 == [.arrive 8, .arrive 7, .begin 8] && seen.2.tasks == [7] && seen.2.serving == some 8) = true := by
    decide +kernel
  obtain ⟨⟨services, pool⟩, observed, state⟩ := (Option.any_eq_true ..).mp checked
  simp only [Bool.and_eq_true, beq_iff_eq] at state
  obtain ⟨⟨rfl, tasks⟩, serving⟩ := state
  have serves := serves_of_observed
    (System.Observed.of_observe (fun _ _ _ => id) observed)
  exact ⟨pool, by rw [CThreadPool.station, tasks, serving], serves.2⟩

end WSlyh.Pool
