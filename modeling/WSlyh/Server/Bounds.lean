import WSlyh.Lib.Lowest
import WSlyh.Server.Reuse

/-! The tables whose indexes are descriptors. The guard of `main` looks at a counter of connections, but
a descriptor counts all that is open. -/

namespace WSlyh.Server

open Http Timer Lib

namespace ServerState

/-- `accept` fails, or it returns the lowest descriptor that is not open. `others` are the open
descriptors that are no connections. -/
def Allots (s : ServerState) (others : Finset Int) : ServerStep → Prop
  | .event answers =>
    answers.connfd < 0 ∨ IsLeast {fd | 0 ≤ fd ∧ fd ∉ others ∧ s.registry.fds fd = none} answers.connfd
  | _ => True

/-- Each descriptor that passes the guard is an index of `https` and `clientDatas`. -/
def InBounds (s : ServerState) (others : Finset Int) : Prop :=
  ∀ step fd, s.Allots others step → s.inits step = some fd → 0 ≤ fd ∧ fd < maxFd

/-- A client is to be accepted, and the guard lets it pass. -/
def Admits (s : ServerState) : Prop :=
  s.main = .dispatching ∧ (∃ event rest, s.events = event :: rest ∧ event.fd = s.listenFd) ∧ s.registry.httpCnt < maxFd

/-- The open descriptors below `MAX_FD` that are no connections. -/
def taken (s : ServerState) (others : Finset Int) : Finset Int :=
  others.filter fun fd => (0 ≤ fd ∧ fd < maxFd) ∧ s.registry.fds fd = none

/-- There is an entry for a client that passes the guard: the counter, made good for each close that has found
its descriptor closed already, leaves room for the descriptors that are no connections. -/
def HasEntry (s : ServerState) (others : Finset Int) : Prop :=
  s.Admits → s.registry.httpCnt + s.registry.closed.count none + (s.taken others).card < maxFd

variable {s s' : ServerState} {others : Finset Int}

theorem inits_iff (s : ServerState) (answers : Answers) (fd : Int) :
    s.inits (.event answers) = some fd ↔ s.Admits ∧ 0 ≤ fd ∧ answers.connfd = fd := by
  constructor
  · intro inits
    simp only [ServerState.inits] at inits
    split at inits
    · rename_i event rest idle head
      split at inits
      · rename_i listen
        split at inits
        · rename_i guard
          cases inits
          exact ⟨⟨idle, ⟨event, _, head, listen⟩, guard.2⟩, guard.1, rfl⟩
        · cases inits
      · cases inits
    · cases inits
  · rintro ⟨⟨idle, ⟨event, rest, head, listen⟩, room⟩, nonneg, rfl⟩
    simp only [ServerState.inits, idle, head, listen, nonneg, room, and_self, if_true]

/-- A client on a descriptor beyond the tables. -/
theorem Admits.act_beyond (admits : s.Admits) (beyond : maxFd ≤ answers.connfd) :
    s.act (.event answers) = some (.error (.memory .outOfBounds)) := by
  obtain ⟨idle, ⟨event, rest, head, listen⟩, room⟩ := admits
  have accepted : ¬ answers.connfd < 0 := not_lt.mpr (le_trans (by decide) beyond)
  have few : ¬ (s.registry.opened answers.connfd).httpCnt ≥ maxFd := not_le.mpr room
  rw [act_event idle head, dispatch, if_pos listen, acceptClient]
  dsimp only
  rw [if_neg accepted, if_neg few, if_pos beyond]

end ServerState

/-- Each close has counted down, also one that found its descriptor closed. -/
structure Registry.Tallied (r : Registry) : Prop where
  inRange : ∀ fd conn, r.fds fd = some conn → 0 ≤ fd ∧ fd < maxFd
  httpCnt : (r.openFds.card : Int) = r.httpCnt + r.closed.count none

namespace Registry

variable {r r' : Registry} {connfd : Int}

theorem Tallied.congr (tallied : r.Tallied) (fds : r'.fds = r.fds) (closed : r'.closed = r.closed)
    (httpCnt : r'.httpCnt = r.httpCnt) : r'.Tallied := by
  have openFds : r'.openFds = r.openFds := by rw [Registry.openFds, Registry.openFds, fds]
  refine ⟨by rw [fds]; exact tallied.inRange, ?_⟩
  rw [openFds, closed, httpCnt]
  exact tallied.httpCnt

theorem Tallied.closeCount (tallied : r.Tallied) (fd : Int) : (((r.epollDel fd).close fd).count (-1)).Tallied := by
  have count := tallied.httpCnt
  rw [closeCount_eq]
  refine ⟨fun other conn isOpen => ?_, ?_⟩
  · have still : (if other ∈ [fd] then none else r.fds other) = some conn := isOpen
    split at still
    · cases still
    · exact tallied.inRange other conn still
  · rw [openFds_evict]
    change ((r.openFds \ [fd].toFinset).card : Int) = r.httpCnt - 1 + (r.closed ++ [r.fds fd]).count none
    rw [List.count_append]
    cases found : r.fds fd with
    | none =>
      have absent : fd ∉ r.openFds := by simp [mem_openFds, found]
      have same : r.openFds \ [fd].toFinset = r.openFds := by simp [absent]
      rw [same]
      simp only [List.count_singleton_self, Nat.cast_add, Nat.cast_one]
      omega
    | some conn =>
      have member : fd ∈ r.openFds := mem_openFds.mpr ⟨tallied.inRange fd conn found, by simp [found]⟩
      have one : r.openFds \ [fd].toFinset = r.openFds.erase fd := by simp [Finset.sdiff_singleton_eq_erase]
      have fewer := Finset.card_erase_add_one member
      have found_ : [some conn].count none = 0 := rfl
      rw [one, found_]
      omega

theorem Tallied.callBackFunc (tallied : r.Tallied) (index : Int) : (r.callBackFunc index).Tallied :=
  tallied.closeCount _

theorem Tallied.callBack (tallied : r.Tallied) (done : r.callBack tempTimer sockfd = .ok r') : r'.Tallied := by
  obtain ⟨callback, _, called⟩ := bind_eq_ok.mp done
  cases callback with
  | none => cases called
  | some =>
    cases called
    exact tallied.callBackFunc sockfd

theorem Tallied.hangUp (tallied : r.Tallied) (done : r.hangUp sockfd = .ok r') : r'.Tallied := by
  unfold Registry.hangUp at done
  obtain ⟨r₁, called, rest⟩ := bind_eq_ok.mp done
  cases rest
  exact (tallied.callBack called).congr rfl rfl rfl

theorem Tallied.readFailed (tallied : r.Tallied) (done : r.readFailed sockfd = .ok r') : r'.Tallied := by
  unfold Registry.readFailed at done
  obtain ⟨callback, _, called⟩ := bind_eq_ok.mp done
  cases callback with
  | none =>
    cases called
    exact tallied
  | some =>
    dsimp only at called
    obtain ⟨r₁, closes, rest⟩ := bind_eq_ok.mp called
    cases rest
    exact (tallied.callBack closes).congr rfl rfl rfl

theorem Tallied.writeFailed (tallied : r.Tallied) (done : r.writeFailed sockfd = .ok r') : r'.Tallied := by
  unfold Registry.writeFailed at done
  dsimp only at done
  split at done
  · obtain ⟨r₁, called, rest⟩ := bind_eq_ok.mp done
    cases rest
    exact (tallied.callBack called).congr rfl rfl rfl
  · cases done
    exact tallied.congr rfl rfl rfl

theorem Tallied.renew (tallied : r.Tallied) (done : r.renew sockfd now = .ok r') : r'.Tallied := by
  unfold Registry.renew at done
  dsimp only at done
  split at done
  · cases done
    exact tallied.congr rfl rfl rfl
  · obtain ⟨_, _, rest⟩ := bind_eq_ok.mp done
    cases rest
    exact tallied.congr rfl rfl rfl

theorem Tallied.tick (tallied : r.Tallied) (done : r.tick now = .ok r') : r'.Tallied := by
  obtain ⟨⟨timerHeap, called⟩, _, rest⟩ := bind_eq_ok.mp done
  cases rest
  have calls (indices : List Int) (r : Registry) (tallied : r.Tallied) :
      (indices.foldl Registry.callBackFunc r).Tallied := by
    induction indices generalizing r with
    | nil => exact tallied
    | cons index indices ih => exact ih _ (tallied.callBackFunc index)
  exact calls called _ (tallied.congr rfl rfl rfl)

theorem Tallied.register (tallied : r.Tallied) (done : r.register connfd now = .ok r') : r'.Tallied := by
  obtain ⟨_, _, rest⟩ := bind_eq_ok.mp done
  cases rest
  exact tallied.congr rfl rfl rfl

/-- A client that is sent away leaves the counter alone. -/
theorem Tallied.refused (tallied : r.Tallied) (free : r.fds connfd = none) :
    ((r.opened connfd).close connfd).Tallied := by
  have fds : ((r.opened connfd).close connfd).fds = r.fds := by
    change Function.update (Function.update r.fds connfd (some r.accepted)) connfd none = r.fds
    rw [Function.update_idem, ← free, Function.update_eq_self]
  have openFds : ((r.opened connfd).close connfd).openFds = r.openFds := by
    rw [Registry.openFds, Registry.openFds, fds]
  refine ⟨by rw [fds]; exact tallied.inRange, ?_⟩
  rw [openFds]
  change (r.openFds.card : Int) = r.httpCnt +
    (r.closed ++ [Function.update r.fds connfd (some r.accepted) connfd]).count none
  rw [Function.update_self, List.count_append]
  exact tallied.httpCnt

theorem Tallied.accepted (tallied : r.Tallied) (free : r.fds connfd = none) (inRange : 0 ≤ connfd ∧ connfd < maxFd)
    (conn : CHttp) : ((conn.init connfd 0).2.foldl perform (r.opened connfd)).Tallied := by
  have count := tallied.httpCnt
  refine ⟨fun fd conn isOpen => ?_, ?_⟩
  · have here : Function.update r.fds connfd (some r.accepted) fd = some conn := isOpen
    by_cases same : fd = connfd
    · rw [same]
      exact inRange
    · rw [Function.update_of_ne same] at here
      exact tallied.inRange fd conn here
  · have more : ((conn.init connfd 0).2.foldl perform (r.opened connfd)).openFds = insert connfd r.openFds := by
      ext fd
      rw [Finset.mem_insert, mem_openFds, mem_openFds]
      change _ ∧ (Function.update r.fds connfd (some r.accepted) fd).isSome ↔ _
      by_cases same : fd = connfd
      · rw [same, Function.update_self]
        simp [inRange]
      · rw [Function.update_of_ne same]
        simp [same]
    have absent : connfd ∉ r.openFds := by simp [mem_openFds, free]
    rw [more, Finset.card_insert_of_notMem absent]
    change ((r.openFds.card + 1 : Nat) : Int) = r.httpCnt + 1 + r.closed.count none
    omega

end Registry

namespace ServerState

variable {s s' s₁ : ServerState} {others : Finset Int}

theorem withRegistry_tallied {r : Except Fault Registry} (done : s.withRegistry r = .ok s')
    (tallied : ∀ r', r = .ok r' → r'.Tallied) : s'.registry.Tallied := by
  obtain ⟨r', same, rest⟩ := bind_eq_ok.mp done
  cases rest
  exact tallied r' same

theorem acceptClient_tallied {answers : Answers} (tallied : s.registry.Tallied)
    (free : answers.connfd < 0 ∨ s.registry.fds answers.connfd = none) (done : s.acceptClient answers = .ok s') :
    s'.registry.Tallied := by
  unfold acceptClient at done
  dsimp only at done
  split at done
  · cases done
    exact tallied
  · rename_i accepted
    have free := free.resolve_left accepted
    split at done
    · cases done
      exact tallied.refused free
    split at done
    · cases done
    · rename_i inRange
      refine withRegistry_tallied done fun r' registered => ?_
      have opened := tallied.accepted free ⟨not_lt.mp accepted, not_le.mp inRange⟩ (s.https answers.connfd)
      exact opened.register (of_mapError registered)

theorem renew_tallied (tallied : s₁.registry.Tallied) (done : s₁.renew fd now = .ok s') : s'.registry.Tallied :=
  withRegistry_tallied done fun _ renewed => tallied.renew (of_mapError renewed)

theorem dispatch_tallied (tallied : s.registry.Tallied)
    (free : answers.connfd < 0 ∨ s.registry.fds answers.connfd = none)
    (done : s.dispatch event answers = some (.ok s')) : s'.registry.Tallied := by
  unfold dispatch at done
  split at done
  · exact acceptClient_tallied tallied free (Option.some.inj done)
  split at done
  · exact withRegistry_tallied (Option.some.inj done) fun _ hung => tallied.hangUp hung
  split at done
  · cases done
    exact tallied
  split at done
  · unfold readable at done
    dsimp only at done
    split at done
    · cases done
    · split at done
      · refine renew_tallied ?_ (Option.some.inj done)
        exact tallied
      · cases done
        exact tallied
    · exact withRegistry_tallied (Option.some.inj done) fun _ failed => tallied.readFailed failed
  split at done
  · unfold writable at done
    dsimp only at done
    have hands := write_hands (s.https event.fd) answers.written
    split at done
    · cases done
    · rename_i returned
      obtain ⟨watched, effects⟩ := hands.goesOn returned s.registry
      refine renew_tallied ?_ (Option.some.inj done)
      change (List.foldl Registry.perform s.registry _).Tallied
      rw [effects]
      exact tallied.congr rfl rfl rfl
    · rename_i returned
      refine withRegistry_tallied (Option.some.inj done) fun _ failed => Registry.Tallied.writeFailed ?_ failed
      change (List.foldl Registry.perform s.registry _).Tallied
      rcases hands.gives returned s.registry with effects | effects
      · rw [effects]
        exact tallied
      · rw [effects]
        exact tallied.congr rfl rfl rfl
  · cases done
    exact tallied

theorem act_tallied (tallied : s.registry.Tallied) (allots : s.Allots others step)
    (done : s.act step = some (.ok s')) :
    s'.registry.Tallied := by
  cases step with
  | wait events =>
    simp only [act] at done
    split at done
    · cases done
      exact tallied.congr rfl rfl rfl
    · cases done
  | event answers =>
    simp only [act] at done
    split at done
    · rename_i event rest idle head
      exact dispatch_tallied (s := { s with events := rest }) tallied (allots.imp_right fun least => least.1.2.2) done
    · cases done
  | append now =>
    simp only [act] at done
    split at done
    · split at done
      · refine renew_tallied ?_ (Option.some.inj done)
        exact tallied
      · cases done
    · cases done
  | timer now =>
    simp only [act] at done
    split at done
    · exact withRegistry_tallied (Option.some.inj done) fun _ ticked => tallied.tick (of_mapError ticked)
    · cases done
  | take worker =>
    simp only [act] at done
    split at done
    · split at done
      · cases done
        exact tallied
      · cases done
    · cases done
  | finish worker answer =>
    simp only [act] at done
    split at done
    · split at done
      · cases done
      · rename_i parsed
        cases done
        change (List.foldl Registry.perform s.registry _).Tallied
        rcases httpParseTask_hands parsed with ⟨event, _, rfl⟩ | ⟨_, rfl, _⟩ | ⟨_, rfl⟩
        · exact tallied.congr rfl rfl rfl
        · exact tallied
        · exact tallied.closeCount _
    · cases done
  | unlock worker =>
    simp only [act] at done
    split at done
    · cases done
      exact tallied
    · cases done

/-- In every run in which the kernel keeps to its rule. -/
theorem reachable_tallied (reachable : serverSystem.Reachable (fun s step => ∃ others, s.Allots others step) s) :
    s.registry.Tallied := by
  refine reachable.invariant (fun s => s.registry.Tallied) ?_ fun s step s' tallied allots done =>
    act_tallied tallied allots.choose_spec done
  rintro s ⟨listenFd, pipeFd, capacity, now, _, rfl⟩
  have none_ : (Registry.start capacity now).openFds = ∅ := Finset.filter_false _
  constructor
  · rintro fd conn ⟨⟩
  · change ((Registry.start capacity now).openFds.card : Int) = 0 + 0
    rw [none_]
    rfl

/-- What the kernel does, by the descriptors that are open. -/
theorem lowest_of_inRange (inRange : ∀ fd conn, s.registry.fds fd = some conn → 0 ≤ fd ∧ fd < maxFd) (fd : Int) :
    IsLeast {fd | 0 ≤ fd ∧ fd ∉ others ∧ s.registry.fds fd = none} fd ↔ Lowest (s.registry.openFds ∪ others) fd := by
  have same : {fd | 0 ≤ fd ∧ fd ∉ others ∧ s.registry.fds fd = none} =
      {fd | 0 ≤ fd ∧ fd ∉ s.registry.openFds ∪ others} := by
    ext fd
    have mem : fd ∈ s.registry.openFds ↔ s.registry.fds fd ≠ none := by
      rw [Registry.mem_openFds, Option.isSome_iff_ne_none, and_iff_right_iff_imp]
      intro isOpen
      obtain ⟨conn, found⟩ := Option.ne_none_iff_exists'.mp isOpen
      exact inRange fd conn found
    simp only [Set.mem_ofPred_eq, Finset.mem_union, mem]
    constructor
    · rintro ⟨nonneg, notOther, closed⟩
      exact ⟨nonneg, fun used => used.elim (fun isOpen => isOpen closed) notOther⟩
    · rintro ⟨nonneg, unused⟩
      exact ⟨nonneg, fun other => unused (.inr other), not_not.mp fun isOpen => unused (.inl isOpen)⟩
  rw [same]
  rfl

/-- The descriptors below `MAX_FD` that are open, by the books. -/
theorem card_used (tallied : s.registry.Tallied) (others : Finset Int) :
    (((s.registry.openFds ∪ others).filter fun fd => 0 ≤ fd ∧ fd < maxFd).card : Int) =
      s.registry.httpCnt + s.registry.closed.count none + (s.taken others).card := by
  have split : ((s.registry.openFds ∪ others).filter fun fd => 0 ≤ fd ∧ fd < maxFd) =
      s.registry.openFds ∪ s.taken others := by
    ext fd
    simp only [Finset.mem_filter, Finset.mem_union, Registry.mem_openFds, taken]
    cases s.registry.fds fd with
    | none => simp
    | some conn =>
      simp only [Option.isSome_some, and_true, reduceCtorEq, and_false, or_false]
      exact ⟨fun used => used.2, fun inRange => ⟨.inl inRange, inRange⟩⟩
  have disjoint : Disjoint s.registry.openFds (s.taken others) := by
    apply Finset.disjoint_left.mpr
    intro fd isOpen other
    have found := (Registry.mem_openFds.mp isOpen).2
    rw [(Finset.mem_filter.mp other).2.2] at found
    cases found
  rw [split, Finset.card_union_of_disjoint disjoint, Nat.cast_add, tallied.httpCnt]

end ServerState

/-- `accept` returns this descriptor. -/
def clientOn (connfd : Int) : Answers := ⟨connfd, [], [], [], 0⟩

/-- In every run in which the kernel keeps to its rule, the tables are kept to just when the counter leaves room
for the descriptors that it does not count. -/
theorem inBounds_iff (reachable : serverSystem.Reachable (fun s step => ∃ others, s.Allots others step) s)
    (others : Finset Int) : s.InBounds others ↔ s.HasEntry others := by
  have tallied := ServerState.reachable_tallied reachable
  have used := s.card_used tallied others
  constructor
  · intro bounds admits
    obtain ⟨fd, lowest⟩ := exists_lowest (s.registry.openFds ∪ others)
    have inits := (s.inits_iff (clientOn fd) fd).mpr ⟨admits, lowest.1.1, rfl⟩
    have allots : s.Allots others (.event (clientOn fd)) :=
      .inr ((ServerState.lowest_of_inRange tallied.inRange fd).mpr lowest)
    rw [← used]
    exact (lowest.lt_iff maxFd).mp (bounds _ fd allots inits).2
  · intro room step fd allots inits
    cases step with
    | event answers =>
      obtain ⟨admits, nonneg, rfl⟩ := (s.inits_iff answers fd).mp inits
      have least := allots.resolve_left (not_lt.mpr nonneg)
      have lowest := (ServerState.lowest_of_inRange tallied.inRange answers.connfd).mp least
      refine ⟨nonneg, (lowest.lt_iff maxFd).mpr ?_⟩
      rw [used]
      exact room admits
    | wait | append | timer | take | finish | unlock => cases inits

namespace ServerState

variable {s : ServerState} {others : Finset Int}

/-- While the books are in order, each close has found its connection. -/
theorem Attended.hasEntry_iff (attended : s.Attended) (others : Finset Int) :
    s.HasEntry others ↔ (s.Admits → s.registry.httpCnt + (s.taken others).card < maxFd) := by
  obtain ⟨conns, closed, _⟩ := attended.linked.closedOnce
  have nothing : s.registry.closed.count none = 0 := by
    rw [closed]
    exact List.count_eq_zero.mpr (by simp)
  rw [HasEntry, nothing, Nat.cast_zero, add_zero]

end ServerState

/-- What is open in a server without clients: the standard descriptors, the listening socket, `epoll`,
the two ends of the pipe, and the log file. -/
def standing : Finset Int := {0, 1, 2, 3, 4, 5, 6, 7}

theorem mem_standing {fd : Int} : fd ∈ standing ↔ 0 ≤ fd ∧ fd < 8 := by
  simp only [standing, Finset.mem_insert, Finset.mem_singleton]
  omega

/-- A client knocks. -/
def knock : Ready := ⟨3, false, true, false⟩

namespace ServerState

variable {s : ServerState} {n : Nat}

def knocked (s : ServerState) : ServerState := { s with registry := s.registry.disarm [3], events := [knock] }

/-- An idle server with `n` clients, who have come one after the other and stay. -/
structure Crowd (s : ServerState) (n : Nat) : Prop where
  main : s.main = .dispatching
  events : s.events = []
  timeout : s.timeout = false
  stopServer : s.stopServer = false
  listenFd : s.listenFd = 3
  pipeFd : s.pipeFd = 5
  httpCnt : s.registry.httpCnt = n
  fds : ∀ fd, (s.registry.fds fd).isSome ↔ 8 ≤ fd ∧ fd < 8 + n

theorem crowd_start (capacity : Nat) (now : Int) : (start 3 5 capacity now).Crowd 0 := by
  refine ⟨rfl, rfl, rfl, rfl, rfl, rfl, rfl, fun fd => ?_⟩
  constructor
  · intro isOpen
    cases isOpen
  · intro between
    omega

/-- The next client gets the next descriptor. -/
theorem Crowd.lowest (crowd : s.Crowd n) :
    IsLeast {fd | 0 ≤ fd ∧ fd ∉ standing ∧ s.registry.fds fd = none} (8 + n) := by
  constructor
  · refine ⟨by omega, fun member => ?_, Option.not_isSome_iff_eq_none.mp fun isOpen => ?_⟩
    · have := (mem_standing.mp member).2
      omega
    · have := (crowd.fds (8 + n)).mp isOpen
      omega
  · rintro fd ⟨nonneg, notStanding, closed⟩
    have above : 8 ≤ fd := not_lt.mp fun below => notStanding (mem_standing.mpr ⟨nonneg, below⟩)
    refine not_lt.mp fun below => ?_
    have isOpen := (crowd.fds fd).mpr ⟨above, below⟩
    rw [closed] at isOpen
    cases isOpen

theorem Crowd.knocks (crowd : s.Crowd n) : s.act (.wait [knock]) = some (.ok s.knocked) :=
  if_pos ⟨crowd.main, crowd.events, crowd.timeout, crowd.stopServer, by decide⟩

theorem Crowd.orderly (crowd : s.Crowd n) : s.Orderly (.wait [knock]) := by
  refine ⟨by simp, fun event member => ?_⟩
  rw [List.mem_singleton.mp member]
  exact .inl crowd.listenFd.symm

/-- A run in which the kernel keeps to its rule and the books stay in order. -/
abbrev Regular (s : ServerState) (step : ServerStep) : Prop := s.Admissible step ∧ s.Allots standing step

theorem Crowd.knocked_reachable (crowd : s.Crowd n) (reachable : serverSystem.Reachable Regular s) :
    serverSystem.Reachable Regular s.knocked :=
  reachable.step ⟨⟨crowd.orderly, s.not_releases fun _ _ => ServerStep.noConfusion⟩, trivial⟩ crowd.knocks

theorem Crowd.allots (crowd : s.Crowd n) : s.knocked.Allots standing (.event (clientOn (8 + n))) := .inr crowd.lowest

theorem Crowd.regular (crowd : s.Crowd n) : s.knocked.Regular (.event (clientOn (8 + n))) := by
  refine ⟨⟨.inr ⟨crowd.lowest.1.2.2, ?_, ?_⟩, s.knocked.not_releases fun _ _ => ServerStep.noConfusion⟩, crowd.allots⟩
  · show (8 + n : Int) ≠ s.listenFd
    rw [crowd.listenFd]
    omega
  · show (8 + n : Int) ≠ s.pipeFd
    rw [crowd.pipeFd]
    omega

theorem Crowd.admits (crowd : s.Crowd n) (guard : (n : Int) < maxFd) : s.knocked.Admits :=
  ⟨crowd.main, ⟨knock, [], rfl, crowd.listenFd.symm⟩, crowd.httpCnt.trans_lt guard⟩

/-- The client that comes next is accepted. -/
theorem Crowd.grow (crowd : s.Crowd n) (reachable : serverSystem.Reachable Regular s) (room : (8 + n : Int) < maxFd) :
    ∃ s', serverSystem.Reachable Regular s' ∧ s'.Crowd (n + 1) := by
  have knocked := crowd.knocked_reachable reachable
  have linked := (reachable_attended (knocked.mono fun _ _ regular => regular.1)).linked
  have guard := (crowd.admits (by omega)).2.2
  have inRange : 0 ≤ (clientOn (8 + n)).connfd ∧ (clientOn (8 + n)).connfd < maxFd := ⟨crowd.lowest.1.1, room⟩
  obtain ⟨timer, heap, accepted, _⟩ :=
    act_accept (clientOn (8 + n)) linked crowd.main rfl crowd.listenFd.symm inRange guard
  refine ⟨_, knocked.step crowd.regular accepted, ?_⟩
  refine ⟨crowd.main, rfl, crowd.timeout, crowd.stopServer, crowd.listenFd, crowd.pipeFd, ?_, fun fd => ?_⟩
  · show s.registry.httpCnt + 1 = (n + 1 : Nat)
    rw [crowd.httpCnt]
    rfl
  · show (Function.update s.registry.fds (8 + n) (some s.registry.accepted) fd).isSome ↔ _
    by_cases same : fd = 8 + n
    · subst same
      rw [Function.update_self]
      simp
    · rw [Function.update_of_ne same, crowd.fds]
      omega

theorem crowd_reachable (fits : (8 + n : Int) ≤ maxFd) : ∃ s, serverSystem.Reachable Regular s ∧ s.Crowd n := by
  induction n with
  | zero => exact ⟨start 3 5 1000 0, .init ⟨3, 5, 1000, 0, by decide, rfl⟩, crowd_start 1000 0⟩
  | succ n ih =>
    obtain ⟨s, reachable, crowd⟩ := ih (by omega)
    exact crowd.grow reachable (by omega)

end ServerState

/-- With 65527 clients there is one entry left, and the client that comes next takes it. -/
theorem lastKnock_inBounds : ∃ s : ServerState, serverSystem.Reachable (fun s step => s.Allots standing step) s ∧
    s.registry.httpCnt = 65527 ∧ s.Admits ∧ s.InBounds standing := by
  obtain ⟨s, reachable, crowd⟩ := ServerState.crowd_reachable (n := 65527) (by decide)
  have knocked := crowd.knocked_reachable reachable
  have attended := ServerState.reachable_attended (knocked.mono fun _ _ regular => regular.1)
  refine ⟨s.knocked, knocked.mono fun _ _ regular => regular.2, crowd.httpCnt, crowd.admits (by decide),
    (inBounds_iff (knocked.mono fun _ _ regular => ⟨standing, regular.2⟩) standing).mpr
      ((attended.hasEntry_iff standing).mpr fun _ => ?_)⟩
  have few : (s.knocked.taken standing).card ≤ 8 := Finset.card_filter_le ..
  have count : s.knocked.registry.httpCnt = 65527 := crowd.httpCnt
  rw [count, maxFd]
  omega

/-- With 65528 clients the guard lets one more pass, and its descriptor is `MAX_FD`. -/
theorem crowd_not_inBounds : ∃ s answers, serverSystem.Reachable (fun s step => s.Allots standing step) s ∧
    s.Allots standing (.event answers) ∧ s.act (.event answers) = some (.error (.memory .outOfBounds)) ∧
    ¬ s.InBounds standing := by
  obtain ⟨s, reachable, crowd⟩ := ServerState.crowd_reachable (n := 65528) (by decide)
  have knocked := crowd.knocked_reachable reachable
  have admits := crowd.admits (by decide)
  have beyond : maxFd ≤ (clientOn (8 + (65528 : Nat))).connfd := by decide
  refine ⟨s.knocked, clientOn (8 + (65528 : Nat)), knocked.mono fun _ _ regular => regular.2, crowd.allots,
    admits.act_beyond beyond, fun bounds => ?_⟩
  have inits := (s.knocked.inits_iff (clientOn (8 + (65528 : Nat))) _).mpr ⟨admits, crowd.lowest.1.1, rfl⟩
  exact not_le.mpr (bounds _ _ crowd.allots inits).2 beyond

end WSlyh.Server
