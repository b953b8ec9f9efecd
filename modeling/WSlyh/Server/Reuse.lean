import WSlyh.Server.Ownership

/-! Which connection a task was appended for, and which connection it finds when it runs. -/

namespace WSlyh.Server

open Http Timer Lib

/-- The descriptor of an accepted connection, whose `CHttp` is initialised by this step. -/
def ServerState.inits (s : ServerState) : ServerStep → Option Int
  | .event answers =>
    match s.main, s.events with
    | .dispatching, event :: _ =>
      if event.fd = s.listenFd then
        if 0 ≤ answers.connfd ∧ s.registry.httpCnt < maxFd then some answers.connfd else none
      else none
    | _, _ => none
  | _ => none

/-- The server and what it does not keep: the connection each `CHttp` was initialised for, and the
connections that the task in `Append`, the queued tasks and the workers' tasks were appended for. -/
structure Tracked where
  server : ServerState
  initFor : Int → Option Nat
  appendedFor : Option Nat
  queuedFor : List (Option Nat)
  runsFor : Nat → Option Nat

namespace Tracked

def next (t : Tracked) (step : ServerStep) (server : ServerState) : Tracked where
  server := server
  initFor := match t.server.inits step with
    | some fd => Function.update t.initFor fd (some t.server.registry.accepted)
    | none => t.initFor
  appendedFor := match step, server.main with
    | .event _, .appending fd => t.initFor fd
    | _, _ => t.appendedFor
  queuedFor := match step with
    | .append _ => t.queuedFor ++ [t.appendedFor]
    | .take _ => t.queuedFor.tail
    | _ => t.queuedFor
  runsFor := match step with
    | .take worker => Function.update t.runsFor worker (t.queuedFor.headD none)
    | _ => t.runsFor

def act (t : Tracked) (step : ServerStep) : Option (Except Fault Tracked) :=
  match t.server.act step with
  | some (.ok server) => some (.ok (t.next step server))
  | some (.error fault) => some (.error fault)
  | none => none

/-- A worker's task finds the connection it was appended for, and no later one. -/
def RunsForItsOwn (t : Tracked) : Prop :=
  ∀ worker task, t.server.workers worker = .running task →
    t.initFor task = t.runsFor worker ∧ ∀ conn, t.server.registry.fds task = some conn → t.runsFor worker = some conn

/-- A descriptor is not reused while a task for it is queued or running. -/
def Spares (t : Tracked) (step : ServerStep) : Prop :=
  ∀ fd, t.server.inits step = some fd → fd ∉ t.server.tasks ∧ ∀ worker, t.server.workers worker ≠ .running fd

/-- The connections known for tasks are those whose objects the tasks lead to. -/
structure Faithful (t : Tracked) : Prop where
  opens : ∀ fd conn, t.server.registry.fds fd = some conn → t.initFor fd = some conn
  queued : t.queuedFor = t.server.tasks.map t.initFor
  running : ∀ worker task, t.server.workers worker = .running task → t.initFor task = t.runsFor worker
  appending : ∀ fd, t.server.main = .appending fd → t.initFor fd = t.appendedFor

end Tracked

/-- The runs of the program with what is known about its tasks. -/
def trackedSystem : System Tracked ServerStep where
  init t := ∃ s, serverSystem.init s ∧ t = ⟨s, fun _ => none, none, [], fun _ => none⟩
  step t step t' := t.act step = some (.ok t')

/-- No descriptor is opened but this one, for the next connection. -/
def Registry.OpensOnly (r r' : Registry) (opened : Option Int) : Prop :=
  ∀ fd conn, r'.fds fd = some conn →
    opened ≠ some fd ∧ r.fds fd = some conn ∨ opened = some fd ∧ conn = r.accepted

namespace Registry

variable {r r' r₁ : Registry} {opened : Option Int}

theorem OpensOnly.of_fds (same : r'.fds = r.fds) : r.OpensOnly r' none :=
  fun fd _ isOpen => .inl ⟨nofun, congrFun same fd ▸ isOpen⟩

theorem OpensOnly.refl (r : Registry) : r.OpensOnly r none := .of_fds rfl

theorem OpensOnly.trans (first : r.OpensOnly r₁ opened) (second : r₁.OpensOnly r' none) : r.OpensOnly r' opened := by
  intro fd conn isOpen
  rcases second fd conn isOpen with ⟨_, before⟩ | ⟨none_, _⟩
  · exact first fd conn before
  · cases none_

theorem opensOnly_close (r : Registry) (fd : Int) : r.OpensOnly (r.close fd) none := by
  intro other conn isOpen
  have still : Function.update r.fds fd none other = some conn := isOpen
  by_cases same : other = fd
  · rw [same, Function.update_self] at still
    cases still
  · rw [Function.update_of_ne same] at still
    exact .inl ⟨nofun, still⟩

theorem opensOnly_perform (r : Registry) (effect : Effect) : r.OpensOnly (r.perform effect) none := by
  cases effect with
  | removeFd fd => exact opensOnly_close (r.epollDel fd) fd
  | addFd | modFd | httpCnt | send | munmap => exact .of_fds rfl

theorem opensOnly_effects (r : Registry) (effects : List Effect) : r.OpensOnly (effects.foldl perform r) none := by
  induction effects generalizing r with
  | nil => exact .refl r
  | cons effect effects ih => exact (opensOnly_perform r effect).trans (ih _)

theorem opensOnly_callBackFunc (r : Registry) (index : Int) : r.OpensOnly (r.callBackFunc index) none :=
  opensOnly_close (r.epollDel _) _

theorem opensOnly_callBack (done : r.callBack tempTimer sockfd = .ok r') : r.OpensOnly r' none := by
  obtain ⟨callback, _, called⟩ := bind_eq_ok.mp done
  cases callback with
  | none => cases called
  | some =>
    cases called
    exact opensOnly_callBackFunc r sockfd

theorem opensOnly_hangUp (done : r.hangUp sockfd = .ok r') : r.OpensOnly r' none := by
  unfold hangUp at done
  obtain ⟨r₁, called, rest⟩ := bind_eq_ok.mp done
  cases rest
  exact (opensOnly_callBack called).trans (.of_fds rfl)

theorem opensOnly_readFailed (done : r.readFailed sockfd = .ok r') : r.OpensOnly r' none := by
  unfold readFailed at done
  obtain ⟨callback, _, called⟩ := bind_eq_ok.mp done
  cases callback with
  | none =>
    cases called
    exact .refl r
  | some =>
    dsimp only at called
    obtain ⟨r₁, closes, rest⟩ := bind_eq_ok.mp called
    cases rest
    exact (opensOnly_callBack closes).trans (.of_fds rfl)

theorem opensOnly_writeFailed (done : r.writeFailed sockfd = .ok r') : r.OpensOnly r' none := by
  unfold writeFailed at done
  dsimp only at done
  split at done
  · obtain ⟨r₁, called, rest⟩ := bind_eq_ok.mp done
    cases rest
    exact (opensOnly_callBack called).trans (.of_fds rfl)
  · cases done
    exact .of_fds rfl

theorem opensOnly_renew (done : r.renew sockfd now = .ok r') : r.OpensOnly r' none := by
  unfold renew at done
  dsimp only at done
  split at done
  · cases done
    exact .of_fds rfl
  · obtain ⟨_, _, rest⟩ := bind_eq_ok.mp done
    cases rest
    exact .of_fds rfl

theorem opensOnly_tick (done : r.tick now = .ok r') : r.OpensOnly r' none := by
  obtain ⟨⟨timerHeap, called⟩, _, rest⟩ := bind_eq_ok.mp done
  cases rest
  have calls (indices : List Int) (r : Registry) : r.OpensOnly (indices.foldl callBackFunc r) none := by
    induction indices generalizing r with
    | nil => exact .refl r
    | cons index indices ih => exact (opensOnly_callBackFunc r index).trans (ih _)
  exact OpensOnly.trans (.of_fds rfl) (calls called { r with timerHeap, clock := now })

theorem opensOnly_register (done : r.register connfd now = .ok r') : r.OpensOnly r' none := by
  obtain ⟨_, _, rest⟩ := bind_eq_ok.mp done
  cases rest
  exact .of_fds rfl

theorem opensOnly_opened (r : Registry) (connfd : Int) : r.OpensOnly (r.opened connfd) (some connfd) := by
  intro fd conn isOpen
  have here : Function.update r.fds connfd (some r.accepted) fd = some conn := isOpen
  by_cases same : fd = connfd
  · rw [same, Function.update_self] at here
    exact .inr ⟨by rw [same], (Option.some.inj here).symm⟩
  · rw [Function.update_of_ne same] at here
    exact .inl ⟨fun opened => same (Option.some.inj opened).symm, here⟩

/-- A connection that is closed at once. -/
theorem opensOnly_refused (r : Registry) (connfd : Int) : r.OpensOnly ((r.opened connfd).close connfd) none := by
  intro fd conn isOpen
  have here : Function.update (Function.update r.fds connfd (some r.accepted)) connfd none fd = some conn := isOpen
  by_cases same : fd = connfd
  · rw [same, Function.update_self] at here
    cases here
  · rw [Function.update_of_ne same, Function.update_of_ne same] at here
    exact .inl ⟨nofun, here⟩

end Registry

namespace ServerState

variable {s s' s₁ : ServerState}

theorem withRegistry_opens {r : Except Fault Registry} (done : s.withRegistry r = .ok s')
    (opens : ∀ r', r = .ok r' → Registry.OpensOnly before r' opened) : before.OpensOnly s'.registry opened := by
  obtain ⟨r', same, rest⟩ := bind_eq_ok.mp done
  cases rest
  exact opens r' same

theorem of_mapError {x : Except ε α} {f : ε → ε'} (done : x.mapError f = .ok a) : x = .ok a := by
  cases x with
  | error fault => cases done
  | ok value =>
    cases done
    rfl

theorem acceptClient_opens {answers : Answers} (done : s.acceptClient answers = .ok s') :
    s.registry.OpensOnly s'.registry
      (if 0 ≤ answers.connfd ∧ s.registry.httpCnt < maxFd then some answers.connfd else none) := by
  unfold acceptClient at done
  dsimp only at done
  split at done
  · rename_i failed
    cases done
    rw [if_neg fun accepted => not_le.mpr failed accepted.1]
    exact .refl _
  · rename_i accepted
    split at done
    · rename_i full
      cases done
      rw [if_neg fun room => not_lt.mpr full room.2]
      exact Registry.opensOnly_refused s.registry answers.connfd
    · rename_i room
      rw [if_pos ⟨not_lt.mp accepted, not_le.mp room⟩]
      split at done
      · cases done
      · refine withRegistry_opens done fun r' registered => ?_
        have first := (Registry.opensOnly_opened s.registry answers.connfd).trans
          (Registry.opensOnly_effects _ ((s.https answers.connfd).init answers.connfd 0).2)
        exact first.trans (Registry.opensOnly_register (of_mapError registered))

theorem renew_opens (done : s₁.renew fd now = .ok s') : s₁.registry.OpensOnly s'.registry none :=
  withRegistry_opens done fun _ renewed => Registry.opensOnly_renew (of_mapError renewed)

theorem event_opens (idle : s.main = .dispatching) (head : s.events = event :: rest)
    (done : { s with events := rest }.dispatch event answers = some (.ok s')) :
    s.registry.OpensOnly s'.registry (s.inits (.event answers)) := by
  have inits : s.inits (.event answers) = if event.fd = s.listenFd then
      if 0 ≤ answers.connfd ∧ s.registry.httpCnt < maxFd then some answers.connfd else none else none := by
    simp only [ServerState.inits, idle, head]
  unfold dispatch at done
  split at done
  · rename_i listen
    rw [inits, if_pos listen]
    have opens := acceptClient_opens (Option.some.inj done)
    exact opens
  · rename_i other
    rw [inits, if_neg other]
    split at done
    · exact withRegistry_opens (Option.some.inj done) fun _ => Registry.opensOnly_hangUp
    split at done
    · cases done
      exact .refl _
    split at done
    · unfold readable at done
      dsimp only at done
      split at done
      · cases done
      · split at done
        · have opens := renew_opens (Option.some.inj done)
          exact opens
        · cases done
          exact .refl _
      · exact withRegistry_opens (Option.some.inj done) fun _ => Registry.opensOnly_readFailed
    split at done
    · unfold writable at done
      dsimp only at done
      have effects := Registry.opensOnly_effects s.registry ((s.https event.fd).write answers.written).effects
      split at done
      · cases done
      · have opens := renew_opens (Option.some.inj done)
        exact effects.trans opens
      · exact effects.trans (withRegistry_opens (Option.some.inj done) fun _ => Registry.opensOnly_writeFailed)
    · cases done
      exact .refl _

/-- A step opens the descriptor that it initialises, and no other. -/
theorem act_opens (done : s.act step = some (.ok s')) : s.registry.OpensOnly s'.registry (s.inits step) := by
  cases step with
  | wait events =>
    simp only [act] at done
    split at done
    · cases done
      exact .of_fds rfl
    · cases done
  | event answers =>
    simp only [act] at done
    split at done
    · rename_i event rest idle head
      exact event_opens idle head done
    · cases done
  | append now =>
    simp only [act] at done
    split at done
    · split at done
      · have opens := renew_opens (Option.some.inj done)
        exact opens
      · cases done
    · cases done
  | timer now =>
    simp only [act] at done
    split at done
    · exact withRegistry_opens (Option.some.inj done) fun _ ticked => Registry.opensOnly_tick (of_mapError ticked)
    · cases done
  | take worker =>
    simp only [act] at done
    split at done
    · split at done
      · cases done
        exact .refl _
      · cases done
    · cases done
  | finish worker answer =>
    simp only [act] at done
    split at done
    · split at done
      · cases done
      · cases done
        exact Registry.opensOnly_effects _ _
    · cases done
  | unlock worker =>
    simp only [act] at done
    split at done
    · cases done
      exact .refl _
    · cases done

theorem acceptClient_main {answers : Answers} (done : s.acceptClient answers = .ok s') : s'.main = s.main := by
  unfold acceptClient at done
  dsimp only at done
  split at done
  · cases done
    rfl
  split at done
  · cases done
    rfl
  split at done
  · cases done
  · obtain ⟨_, _, rest⟩ := bind_eq_ok.mp done
    cases rest
    rfl

/-- The step that initialises an object does not go on to `Append`. -/
theorem inits_main (done : s.act step = some (.ok s')) (inits : s.inits step = some fd) : s'.main = .dispatching := by
  cases step with
  | event answers =>
    simp only [act] at done
    split at done
    · rename_i event rest idle head
      simp only [ServerState.inits, idle, head] at inits
      split at inits
      · rename_i listen
        rw [dispatch, if_pos listen] at done
        exact (acceptClient_main (Option.some.inj done)).trans idle
      · cases inits
    · cases done
  | wait | append | timer | take | finish | unlock => cases inits

end ServerState

namespace Tracked

variable {t : Tracked} {s' : ServerState}

theorem next_initFor (t : Tracked) (step : ServerStep) (s' : ServerState) (apart : t.server.inits step ≠ some fd) :
    (t.next step s').initFor fd = t.initFor fd := by
  cases inits : t.server.inits step with
  | none => simp only [next, inits]
  | some other =>
    simp only [next, inits]
    exact Function.update_of_ne (fun same => apart (by rw [inits, same])) ..

theorem next_initFor_self (inits : t.server.inits step = some fd) (s' : ServerState) :
    (t.next step s').initFor fd = some t.server.registry.accepted := by
  simp only [next, inits, Function.update_self]

theorem Faithful.opens_next (faithful : t.Faithful) (done : t.server.act step = some (.ok s')) (fd : Int) (conn : Nat)
    (isOpen : s'.registry.fds fd = some conn) : (t.next step s').initFor fd = some conn := by
  rcases ServerState.act_opens done fd conn isOpen with ⟨apart, before⟩ | ⟨here, rfl⟩
  · rw [next_initFor t step s' apart]
    exact faithful.opens fd conn before
  · exact next_initFor_self here s'

/-- An event changes neither the queue nor what the workers do. -/
theorem Faithful.event (faithful : t.Faithful) (spares : t.Spares (.event answers))
    (done : t.server.act (.event answers) = some (.ok s')) : (t.next (.event answers) s').Faithful := by
  have same : t.server.SamePool s' := by
    simp only [ServerState.act] at done
    split at done
    · have same := ServerState.dispatch_samePool done
      exact same
    · cases done
  refine ⟨faithful.opens_next done, ?_, fun worker task running => ?_, fun fd busy => ?_⟩
  · change t.queuedFor = s'.tasks.map _
    rw [same.2.2, faithful.queued]
    exact List.map_congr_left fun fd member =>
      (next_initFor t _ s' fun inits => (spares fd inits).1 member).symm
  · have before : t.server.workers worker = .running task := same.2.1 ▸ running
    rw [next_initFor t _ s' fun inits => (spares task inits).2 worker before]
    exact faithful.running worker task before
  · have main : s'.main = .appending fd := busy
    have noInit (other : Int) : t.server.inits (.event answers) ≠ some other := fun inits => by
      rw [ServerState.inits_main done inits] at main
      cases main
    rw [next_initFor t _ s' (noInit fd)]
    simp only [Tracked.next, main]

theorem Faithful.next (faithful : t.Faithful) (spares : t.Spares step) (done : t.server.act step = some (.ok s')) :
    (t.next step s').Faithful := by
  have opens := faithful.opens_next done
  obtain ⟨before, queued, running, appending⟩ := faithful
  cases step with
  | wait events =>
    simp only [ServerState.act] at done
    split at done
    · cases done
      exact ⟨opens, queued, running, appending⟩
    · cases done
  | event answers => exact Faithful.event ⟨before, queued, running, appending⟩ spares done
  | append now =>
    simp only [ServerState.act] at done
    split at done
    · rename_i fd busy
      split at done
      · obtain ⟨_, _, rest⟩ := bind_eq_ok.mp (Option.some.inj done)
        cases rest
        refine ⟨opens, ?_, running, fun _ busy => MainThread.noConfusion busy⟩
        change t.queuedFor ++ [t.appendedFor] = (t.server.tasks ++ [fd]).map t.initFor
        rw [queued, List.map_append, ← appending fd busy]
        rfl
      · cases done
    · cases done
  | timer now =>
    simp only [ServerState.act] at done
    split at done
    · obtain ⟨_, _, rest⟩ := bind_eq_ok.mp (Option.some.inj done)
      cases rest
      exact ⟨opens, queued, running, appending⟩
    · cases done
  | take worker =>
    simp only [ServerState.act] at done
    split at done
    · rename_i task later head
      split at done
      · cases done
        rw [head] at queued
        refine ⟨opens, ?_, fun other task' busy => ?_, appending⟩
        · change t.queuedFor.tail = later.map t.initFor
          rw [queued]
          rfl
        · have here : Function.update t.server.workers worker (.running task) other = .running task' := busy
          change t.initFor task' = Function.update t.runsFor worker (t.queuedFor.headD none) other
          by_cases same : other = worker
          · rw [same, Function.update_self] at here ⊢
            rw [queued, Worker.running.inj here]
            rfl
          · rw [Function.update_of_ne same] at here ⊢
            exact running other task' here
      · cases done
    · cases done
  | finish worker answer =>
    simp only [ServerState.act] at done
    split at done
    · split at done
      · cases done
      · cases done
        refine ⟨opens, queued, fun other task' busy => ?_, appending⟩
        have here : Function.update t.server.workers worker .returning other = .running task' := busy
        by_cases same : other = worker
        · rw [same, Function.update_self] at here
          cases here
        · rw [Function.update_of_ne same] at here
          exact running other task' here
    · cases done
  | unlock worker =>
    simp only [ServerState.act] at done
    split at done
    · cases done
      refine ⟨opens, queued, fun other task' busy => ?_, appending⟩
      have here : Function.update t.server.workers worker .waiting other = .running task' := busy
      by_cases same : other = worker
      · rw [same, Function.update_self] at here
        cases here
      · rw [Function.update_of_ne same] at here
        exact running other task' here
    · cases done

theorem reachable_faithful (reachable : trackedSystem.Reachable Spares t) : t.Faithful := by
  refine reachable.invariant Faithful ?_ ?_
  · rintro _ ⟨_, ⟨listenFd, pipeFd, capacity, now, positive, rfl⟩, rfl⟩
    exact ⟨nofun, rfl, nofun, nofun⟩
  · intro t step t' faithful spares done
    change t.act step = some (.ok t') at done
    unfold act at done
    split at done
    · rename_i done'
      cases done
      exact faithful.next spares done'
    · cases done
    · cases done

end Tracked

/-- While no descriptor is reused that a task is still waiting for or running on, tasks run for
their own connections. -/
theorem runsForItsOwn_of_reachable {t : Tracked} (reachable : trackedSystem.Reachable Tracked.Spares t) :
    t.RunsForItsOwn := by
  have faithful := Tracked.reachable_faithful reachable
  intro worker task running
  have own := faithful.running worker task running
  exact ⟨own, fun conn isOpen => own.symm.trans (faithful.opens task conn isOpen)⟩

theorem Tracked.server_reachable {t : Tracked} (reachable : trackedSystem.Reachable allowed t) :
    serverSystem.Reachable (fun _ _ => True) t.server := by
  induction reachable with
  | init start =>
    obtain ⟨s, start, rfl⟩ := start
    exact .init start
  | @step t step t' before may taken ih =>
    change t.act step = some (.ok t') at taken
    unfold Tracked.act at taken
    split at taken
    · rename_i done
      cases taken
      exact ih.step trivial done
    · cases taken
    · cases taken

/-- A check that is enough for `Spares`. -/
def Tracked.spares? (t : Tracked) (step : ServerStep) : Bool :=
  match t.server.inits step with
  | none => true
  | some fd => !t.server.tasks.contains fd && t.server.lock.isNone

theorem Tracked.spares?_sound {t : Tracked} (reachable : trackedSystem.Reachable allowed t)
    (may : t.spares? step = true) : t.Spares step := by
  intro fd inits
  rw [spares?, inits] at may
  simp only [Bool.and_eq_true, Bool.not_eq_true', List.contains_eq_mem, decide_eq_false_iff_not,
    Option.isNone_iff_eq_none] at may
  refine ⟨may.1, fun worker running => ?_⟩
  have locked := ServerState.reachable_exclusive (Tracked.server_reachable reachable) worker
    (by rw [running]; exact Worker.noConfusion)
  rw [may.2] at locked
  cases locked

/-- A worker takes the request of the first client. -/
theorem client_runsForItsOwn : ∃ t : Tracked, t.server.workers 0 = .running 10 ∧ t.RunsForItsOwn := by
  have checked : ((System.Reachable.follow Tracked.act Tracked.spares?
      ⟨.start 3 5 1000 0, fun _ => none, none, [], fun _ => none⟩ (clientSteps ++ [.take 0])).any fun t =>
        t.server.workers 0 == .running 10) = true := by
    decide +kernel
  obtain ⟨t, followed, state⟩ := (Option.any_eq_true ..).mp checked
  exact ⟨t, eq_of_beq state, runsForItsOwn_of_reachable (System.Reachable.followed
    (.init ⟨_, ⟨3, 5, 1000, 0, by decide, rfl⟩, rfl⟩) (fun _ _ => Tracked.spares?_sound) (fun _ _ _ => id) followed)⟩

/-- What the kernel may deliver, at any time. -/
def Tracked.Delivers (t : Tracked) (step : ServerStep) : Prop := (∃ now, step = .timer now) ∨ t.server.Delivers step

def Tracked.delivers? (t : Tracked) : ServerStep → Bool
  | .timer _ => true
  | step => t.server.delivers? step

theorem Tracked.delivers?_sound {t : Tracked} (may : t.delivers? step = true) : t.Delivers step := by
  cases step with
  | timer now => exact .inl ⟨now, rfl⟩
  | wait | event | append | take | finish | unlock => exact .inr (ServerState.delivers?_sound may)

/-- A request waits in the queue until its connection has expired and its descriptor is reused. -/
def lateSteps : List ServerStep :=
  clientSteps ++ [.wait [⟨5, false, true, false⟩], .event ⟨-1, [], [], [.alarm], 20⟩, .timer 20,
    .wait [⟨3, false, true, false⟩], .event ⟨10, [], [], [], 20⟩, .take 0]

/-- The task of the first client runs for the second. -/
theorem late_not_own : ∃ t, trackedSystem.Reachable Tracked.Delivers t ∧ ¬ t.RunsForItsOwn := by
  have checked : ((System.Reachable.follow Tracked.act Tracked.delivers?
      ⟨.start 3 5 1000 0, fun _ => none, none, [], fun _ => none⟩ lateSteps).any fun t =>
        t.server.workers 0 == .running 10 && t.initFor 10 == some 1 && t.runsFor 0 == some 0) = true := by
    decide +kernel
  obtain ⟨t, followed, state⟩ := (Option.any_eq_true ..).mp checked
  simp only [Bool.and_eq_true, beq_iff_eq] at state
  refine ⟨t, System.Reachable.followed (.init ⟨_, ⟨3, 5, 1000, 0, by decide, rfl⟩, rfl⟩)
    (fun _ _ _ => Tracked.delivers?_sound) (fun _ _ _ => id) followed, fun own => ?_⟩
  have same := (own 0 10 state.1.1).1
  rw [state.1.2, state.2] at same
  cases same

end WSlyh.Server
