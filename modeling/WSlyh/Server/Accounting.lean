import WSlyh.Server.Steps

/-! In every run, the number of connections and the timers are in step with the open
connections, as long as a batch has one event at most for each descriptor and no worker
closes a connection. -/

namespace WSlyh.Server

open Http Timer Lib

/-- The batches and descriptors that a run of the event loop is given. -/
def ServerState.Orderly (s : ServerState) : ServerStep → Prop
  | .wait events => (events.map Ready.fd).Nodup ∧ ∀ event ∈ events, s.Expected event
  | .event answers => s.Fresh answers.connfd
  | _ => True

/-- A worker gives up a connection by `CloseHttp`. -/
def ServerState.Releases (s : ServerState) (step : ServerStep) : Prop :=
  ∃ worker answer task http effects fd, step = .finish worker answer ∧ s.workers worker = .running task ∧
    (s.https task).httpParseTask answer = .ok (http, effects) ∧ Effect.removeFd fd ∈ effects

theorem ServerState.not_releases (s : ServerState) {step : ServerStep}
    (other : ∀ worker answer, step ≠ .finish worker answer) : ¬ s.Releases step := by
  rintro ⟨worker, answer, _, _, _, _, same, _⟩
  exact other worker answer same

/-- The steps of the event loop, and of workers that close nothing. -/
def ServerState.Admissible (s : ServerState) (step : ServerStep) : Prop := s.Orderly step ∧ ¬ s.Releases step

/-- Admissible steps on a clock that does not go back. -/
def ServerState.Punctual (s : ServerState) (step : ServerStep) : Prop :=
  s.Admissible step ∧ ∀ now, step.reading = some now → s.registry.clock ≤ now

/-- The books are in order, and the events at hand can still be expected. -/
structure ServerState.Attended (s : ServerState) : Prop where
  linked : s.registry.Linked
  exact_ : s.registry.Exact
  distinct : (s.events.map Ready.fd).Nodup
  pending : ∀ event ∈ s.events, s.Expected event
  appending : ∀ fd, s.main = .appending fd → (s.registry.fds fd).isSome

namespace ServerState

variable {s s' : ServerState}

/-- The events behind the head can still be expected when their descriptors stay open. -/
theorem Attended.behind (attended : s.Attended) (head : s.events = event :: rest)
    (stays : ∀ fd, fd ≠ event.fd → (s.registry.fds fd).isSome → (s'.registry.fds fd).isSome)
    (listen : s'.listenFd = s.listenFd) (pipe : s'.pipeFd = s.pipeFd) :
    (rest.map Ready.fd).Nodup ∧ ∀ other ∈ rest, s'.Expected other := by
  have distinct := attended.distinct
  rw [head, List.map_cons, List.nodup_cons] at distinct
  refine ⟨distinct.2, fun other member => ?_⟩
  have apart : other.fd ≠ event.fd := fun same => distinct.1 (same ▸ List.mem_map_of_mem member)
  rcases attended.pending other (by rw [head]; exact List.mem_cons_of_mem _ member) with isListen | isPipe | isOpen
  · exact .inl (isListen.trans listen.symm)
  · exact .inr (.inl (pipe ▸ isPipe))
  · exact .inr (.inr (stays _ apart isOpen))

/-- A step on the head of the batch that opens or closes no other descriptor. -/
theorem Attended.handled (attended : s.Attended) (head : s.events = event :: rest) (idle : s'.main = .dispatching)
    (linked : s'.registry.Linked) (exact_ : s'.registry.Exact) (events : s'.events = rest)
    (stays : ∀ fd, fd ≠ event.fd → (s.registry.fds fd).isSome → (s'.registry.fds fd).isSome)
    (listen : s'.listenFd = s.listenFd) (pipe : s'.pipeFd = s.pipeFd) : s'.Attended := by
  obtain ⟨distinct, pending⟩ := attended.behind head stays listen pipe
  refine ⟨linked, exact_, events ▸ distinct, events ▸ pending, fun fd busy => ?_⟩
  rw [idle] at busy
  cases busy

/-- A step that leaves the batch and the open descriptors alone. -/
theorem Attended.aside (attended : s.Attended) (linked : s'.registry.Linked) (exact_ : s'.registry.Exact)
    (events : s'.events = s.events) (fds : s'.registry.fds = s.registry.fds)
    (main : s'.main = s.main ∨ s'.main = .dispatching)
    (listen : s'.listenFd = s.listenFd) (pipe : s'.pipeFd = s.pipeFd) : s'.Attended := by
  refine ⟨linked, exact_, events ▸ attended.distinct, fun event member => ?_, fun fd busy => ?_⟩
  · have before := attended.pending event (events ▸ member)
    unfold Expected at before ⊢
    rwa [listen, pipe, fds]
  · rw [fds]
    rcases main with same | idle
    · exact attended.appending fd (same ▸ busy)
    · rw [idle] at busy
      cases busy

theorem dropped_open {r : Registry} {timer : TimerPtr} (watched : r = s.registry ∨ r = s.registry.modFd sockfd watch)
    (apart : other ≠ fd) (isOpen : (s.registry.fds other).isSome) : ((r.dropped fd timer).fds other).isSome := by
  have kept : (r.dropped fd timer).fds other = r.fds other := if_neg (by simpa using apart)
  rw [kept]
  rcases watched with rfl | rfl <;> exact isOpen

theorem Attended.ticked (attended : s.Attended) (now : Int) :
    ∃ popped heap, s.registry.tick now = .ok (s.registry.ticked popped heap now) ∧
      s.registry.timerHeap.Ticked now popped heap :=
  Registry.tick_eq attended.linked.placed now fun _ _ pops =>
    ⟨Registry.called_nodup attended.linked attended.exact_ pops,
      Registry.called_sockFd attended.linked attended.exact_ pops⟩

theorem Attended.tick (attended : s.Attended) (done : s.registry.tick now = .ok r) : r.Linked ∧ r.Exact := by
  obtain ⟨popped, heap, ticked, pops⟩ := attended.ticked now
  obtain rfl := Except.ok.inj (done.symm.trans ticked)
  exact ⟨attended.linked.ticked pops (Registry.called_nodup attended.linked attended.exact_ pops)
    (Registry.called_open attended.linked attended.exact_ pops), attended.exact_.ticked attended.linked pops⟩

theorem Attended.next (attended : s.Attended) (admissible : s.Admissible step) (next : s.Next step (.ok s')) :
    s'.Attended := by
  have linked := attended.linked
  have exact_ := attended.exact_
  cases next with
  | wait idle handled events =>
    refine ⟨linked.watch _, exact_, admissible.1.1, admissible.1.2, fun fd busy => ?_⟩
    rw [idle] at busy
    cases busy
  | ignored idle head => exact attended.handled head idle linked exact_ rfl (fun _ _ => id) rfl rfl
  | signals idle head => exact attended.handled head idle linked exact_ rfl (fun _ _ => id) rfl rfl
  | acceptFails idle head => exact attended.handled head idle linked exact_ rfl (fun _ _ => id) rfl rfl
  | refuse idle head listen closed =>
    refine attended.handled head idle (linked.refused closed) (exact_.refused closed) rfl
      (fun fd _ isOpen => ?_) rfl rfl
    rw [Registry.refused_fds closed]
    exact isOpen
  | accept idle head listen closed notListen notPipe inRange gains =>
    refine attended.handled head idle (linked.admitted closed gains inRange) (exact_.admitted closed gains) rfl
      (fun fd _ isOpen => ?_) rfl rfl
    have apart : fd ≠ _ := fun same => by
      rw [same, closed] at isOpen
      cases isOpen
    exact (congrArg Option.isSome (Function.update_of_ne apart ..)).trans isOpen
  | drop idle head notListen isOpen leads watched http =>
    refine attended.handled head idle ?_ ?_ rfl (fun fd apart => dropped_open watched apart) rfl rfl
    · rcases watched with rfl | rfl
      · exact linked.dropped leads (Option.isSome_of_eq_some isOpen)
      · exact (linked.watch _).dropped leads (Option.isSome_of_eq_some isOpen)
    · rcases watched with rfl | rfl
      · exact exact_.dropped leads
      · exact Registry.Exact.dropped leads exact_
  | refuseTask idle head notListen isOpen leads noHup readable read full renews =>
    exact attended.handled head idle (linked.renewed renews) (exact_.renewed renews) rfl (fun _ _ => id) rfl rfl
  | enterAppend idle head notListen isOpen read room =>
    obtain ⟨distinct, pending⟩ := attended.behind head (fun _ _ => id) rfl rfl
    refine ⟨linked, exact_, distinct, pending, fun fd busy => ?_⟩
    obtain rfl := MainThread.appending.inj busy
    exact Option.isSome_of_eq_some isOpen
  | write idle head notListen isOpen leads sockFd watch renews =>
    exact attended.handled head idle ((linked.watch _).renewed renews) (Registry.Exact.renewed renews exact_) rfl
      (fun _ _ => id) rfl rfl
  | append appending free isOpen leads renews =>
    exact attended.aside (linked.renewed renews) (exact_.renewed renews) rfl rfl (.inr rfl) rfl rfl
  | timer idle handled done =>
    obtain ⟨linked', exact'⟩ := attended.tick done
    refine ⟨linked', exact', ?_, ?_, fun fd busy => ?_⟩
    · rw [handled]
      exact List.nodup_nil
    · rw [handled]
      exact fun _ member => absurd member List.not_mem_nil
    · rw [idle] at busy
      cases busy
  | take queued free waiting => exact attended.aside linked exact_ rfl rfl (.inl rfl) rfl rfl
  | finish running done =>
    rcases httpParseTask_hands done with ⟨watch, _, rfl⟩ | ⟨_, rfl, _⟩ | ⟨_, rfl⟩
    · exact attended.aside (linked.watch _) exact_ rfl rfl (.inl rfl) rfl rfl
    · exact attended.aside linked exact_ rfl rfl (.inl rfl) rfl rfl
    · exact absurd ⟨_, _, _, _, _, _, rfl, running, done, List.mem_cons_self⟩ admissible.2
  | unlock returning => exact attended.aside linked exact_ rfl rfl (.inl rfl) rfl rfl

theorem start_attended (listenFd pipeFd : Int) (now : Int) (positive : 0 < capacity) :
    (start listenFd pipeFd capacity now).Attended := by
  refine ⟨⟨CTimerHeap.create_placed positive, nofun, nofun, nofun, nofun, ?_, ⟨[], rfl, List.nodup_nil, nofun⟩⟩,
    fun timer member => absurd member (CTimerHeap.not_mem_create capacity timer), List.nodup_nil, nofun, nofun⟩
  have none_ : (Registry.start capacity now).openFds = ∅ := Finset.filter_false _
  change (0 : Int) = ((Registry.start capacity now).openFds.card : Int)
  rw [none_, Finset.card_empty, Nat.cast_zero]

theorem Attended.act (attended : s.Attended) (admissible : s.Admissible step) (done : s.act step = some result) :
    s.Next step result :=
  act_next attended.linked (fun event rest head => attended.pending event (by rw [head]; exact List.mem_cons_self))
    attended.appending (fun answers same => by subst same; exact admissible.1) done

theorem reachable_attended (reachable : serverSystem.Reachable Admissible s) : s.Attended :=
  reachable.invariant Attended
    (fun _ ⟨listenFd, pipeFd, _, now, positive, same⟩ => same ▸ start_attended listenFd pipeFd now positive)
    fun _ _ _ attended admissible done => attended.next admissible (attended.act admissible done)

/-- The number of connections and the timers agree with the open connections, nothing is
closed twice, and no step calls a null callback. -/
structure InStep (s : ServerState) : Prop where
  httpCnt : ∃ connections : Finset Int, (∀ fd, fd ∈ connections ↔ (s.registry.fds fd).isSome) ∧
    s.registry.httpCnt = connections.card
  timer : ∀ fd, (s.registry.fds fd).isSome → ∃ timer, (s.registry.clientDatas fd).timer = some timer ∧
    s.registry.timerHeap.Mem timer ∧ (s.registry.timerHeap.timers timer).callbackFunc ≠ none
  owner : ∀ timer, s.registry.timerHeap.Mem timer → (s.registry.timerHeap.timers timer).callbackFunc ≠ none →
    ∃ fd, (s.registry.fds fd).isSome ∧ (s.registry.clientDatas fd).timer = some timer
  closedOnce : ∃ conns : List Nat, s.registry.closed = conns.map some ∧ conns.Nodup
  callback : ∀ step, s.Admissible step → s.act step ≠ some (.error .nullCallback)

theorem Attended.inStep (attended : s.Attended) : s.InStep := by
  have linked := attended.linked
  refine ⟨⟨s.registry.openFds, fun fd => ?_, linked.httpCnt⟩, fun fd isOpen => ?_, fun timer member live => ?_, ?_,
    fun step admissible failed => ?_⟩
  · rw [Registry.mem_openFds, and_iff_right_iff_imp]
    intro isOpen
    obtain ⟨conn, found⟩ := Option.isSome_iff_exists.mp isOpen
    exact linked.inRange fd conn found
  · obtain ⟨conn, found⟩ := Option.isSome_iff_exists.mp isOpen
    obtain ⟨timer, leads⟩ := linked.leads fd conn found
    exact ⟨timer, leads.found, leads.member, by rw [leads.live]; exact Option.some_ne_none _⟩
  · obtain ⟨fd, conn, isOpen, found⟩ := attended.exact_ timer member live
    exact ⟨fd, Option.isSome_of_eq_some isOpen, found⟩
  · obtain ⟨conns, closed, once, _⟩ := linked.closedOnce
    exact ⟨conns, closed, once⟩
  · cases attended.act admissible failed

end ServerState

/-- Connections, timers and the counter stay in step in every run. -/
theorem inStep_of_reachable {s : ServerState} (reachable : serverSystem.Reachable ServerState.Admissible s) :
    s.InStep := (ServerState.reachable_attended reachable).inStep

theorem ServerState.Punctual.event {s : ServerState} (answers : Answers) (fresh : s.Fresh answers.connfd)
    (later : s.registry.clock ≤ answers.now) : s.Punctual (.event answers) :=
  ⟨⟨fresh, s.not_releases fun _ _ => ServerStep.noConfusion⟩, fun _ same => Option.some.inj same ▸ later⟩

/-- A run in which a client is accepted on descriptor 10, while a signal waits. -/
theorem firstClient_reachable : ∃ s, serverSystem.Reachable ServerState.Punctual s ∧ s.main = .dispatching ∧
    s.events = [⟨5, false, true, false⟩] ∧ s.registry.fds 10 = some 0 ∧ s.listenFd = 3 ∧ s.pipeFd = 5 ∧
    s.registry.clock = 0 := by
  have start : serverSystem.Reachable ServerState.Punctual (.start 3 5 1000 0) :=
    .init ⟨3, 5, 1000, 0, by decide, rfl⟩
  have orderly : (ServerState.start 3 5 1000 0).Orderly
    (.wait [⟨3, false, true, false⟩, ⟨5, false, true, false⟩]) := by
    refine ⟨by simp, fun event member => ?_⟩
    rcases List.mem_pair.mp member with rfl | rfl
    · exact .inl rfl
    · exact .inr (.inl ⟨rfl, rfl, rfl⟩)
  obtain ⟨s, waited, same⟩ : ∃ s, serverSystem.Reachable ServerState.Punctual s ∧
    s = { ServerState.start 3 5 1000 0 with
      registry := (Registry.start 1000 0).disarm [3, 5]
      events := [⟨3, false, true, false⟩, ⟨5, false, true, false⟩] } :=
    ⟨_, start.step ⟨⟨orderly, ServerState.not_releases _ fun _ _ => ServerStep.noConfusion⟩, nofun⟩ rfl, rfl⟩
  have linked := (ServerState.reachable_attended (waited.mono fun _ _ punctual => punctual.1)).linked
  have fresh : s.Fresh 10 := .inr (by subst same; exact ⟨rfl, by decide, by decide⟩)
  obtain ⟨timer, heap, accepted, _⟩ := s.act_accept ⟨10, [], [], [], 0⟩ linked
    (by rw [same]; rfl) (by rw [same]) (by rw [same]; rfl) (by decide) (by rw [same]; decide)
  refine ⟨_, waited.step (.event ⟨10, [], [], [], 0⟩ fresh (by rw [same]; decide)) accepted, ?_⟩
  subst same
  exact ⟨rfl, rfl, Registry.admitted_self .., rfl, rfl, rfl⟩

/-- The books after the first client. -/
theorem firstClient_inStep : ∃ s : ServerState, s.registry.fds 10 = some 0 ∧ s.InStep := by
  obtain ⟨s, reachable, _, _, isOpen, _⟩ := firstClient_reachable
  exact ⟨s, isOpen, inStep_of_reachable (reachable.mono fun _ _ punctual => punctual.1)⟩

end WSlyh.Server
