import WSlyh.Server.Accounting

/-! While no timer expires and the queue of the pool has room, each open connection is in one
place: armed, queued or with a worker. -/

namespace WSlyh.Server

open Http Timer Lib

/-- Where a connection can be between two steps. -/
inductive Situation
  | armedIn | armedOut | queued | running
  deriving DecidableEq, Repr

def ServerState.IsIn (s : ServerState) (fd : Int) : Situation → Prop
  | .armedIn => s.registry.epoll fd = some (.armed .epollIn)
  | .armedOut => s.registry.epoll fd = some (.armed .epollOut)
  | .queued => fd ∈ s.tasks
  | .running => ∃ worker, s.workers worker = .running fd

/-- The connection is in one place, and there once. -/
structure ServerState.OwnedOnce (s : ServerState) (fd : Int) : Prop where
  place : ∃ situation, s.IsIn fd situation ∧ ∀ other, s.IsIn fd other → other = situation
  queuedOnce : s.tasks.count fd ≤ 1
  oneWorker : ∀ worker worker', s.workers worker = .running fd → s.workers worker' = .running fd → worker = worker'

/-- No step of the event loop on this descriptor is under way. -/
def ServerState.Between (s : ServerState) (fd : Int) : Prop :=
  fd ∉ s.events.map Ready.fd ∧ s.main ≠ .appending fd

/-- What the kernel may deliver for a descriptor that is watched. -/
def ServerState.Deliverable (s : ServerState) (event : Ready) : Prop :=
  event.fd = s.listenFd ∨ event.fd = s.pipeFd ∧ event.hup = false ∧ event.epollIn = true ∨
    (∃ watched, s.registry.epoll event.fd = some (.armed watched)) ∧
    (event.hup || event.epollIn || event.epollOut) = true

/-- The environment of a run in which no timer expires. -/
def ServerState.Delivers (s : ServerState) : ServerStep → Prop
  | .wait events => (events.map Ready.fd).Nodup ∧ ∀ event ∈ events, s.Deliverable event
  | .event answers => s.Fresh answers.connfd
  | .timer now => ∀ timer, s.registry.timerHeap.Mem timer →
      (s.registry.timerHeap.timers timer).callbackFunc ≠ none → now < s.registry.timerHeap.expire timer
  | _ => True

/-- A `Read` that succeeds finds room in the queue of the pool. -/
def ServerState.HasRoom (s : ServerState) : ServerStep → Prop
  | .event answers => ∀ event rest, s.events = event :: rest → event.fd ≠ s.listenFd → event.hup = false →
      event.epollIn = true → ((s.https event.fd).read answers.received).2 = some true → s.tasks.length < taskNum
  | _ => True

/-- The connection that the holder of the lock works on. -/
def ServerState.current (s : ServerState) : Option Int :=
  match s.lock with
  | none => none
  | some worker =>
    match s.workers worker with
    | .running task => some task
    | _ => none

/-- The connections with an event at hand. -/
def ServerState.delivered (s : ServerState) : List Int :=
  (s.events.map Ready.fd).filter fun fd => fd != s.listenFd && fd != s.pipeFd

def ServerState.runs (s : ServerState) (fd : Int) : Nat := if s.current = some fd then 1 else 0

def ServerState.appends (s : ServerState) (fd : Int) : Nat := if s.main = .appending fd then 1 else 0

def Registry.armed (r : Registry) (fd : Int) : Nat :=
  match r.epoll fd with
  | some (.armed _) => 1
  | _ => 0

/-- How often a descriptor is held by the kernel, the queue, a worker or the event loop. -/
def ServerState.holders (s : ServerState) (fd : Int) : Nat :=
  s.registry.armed fd + s.tasks.count fd + s.runs fd + s.appends fd + s.delivered.count fd

def Registry.opens (r : Registry) (fd : Int) : Nat := if (r.fds fd).isSome then 1 else 0

structure ServerState.Owned (s : ServerState) : Prop where
  linked : s.registry.Linked
  holders : ∀ fd, s.holders fd = s.registry.opens fd
  registered : ∀ fd, (s.registry.fds fd).isSome → (s.registry.epoll fd).isSome
  own : ∀ fd, (s.registry.fds fd).isSome → (s.https fd).sockFd = fd
  alone : ∀ worker, s.workers worker ≠ .waiting → s.lock = some worker
  apart : s.registry.fds s.listenFd = none ∧ s.registry.fds s.pipeFd = none
  flagged : ∀ event ∈ s.events, event.fd = s.listenFd ∨
    event.fd = s.pipeFd ∧ event.hup = false ∧ event.epollIn = true ∨
    event.fd ≠ s.pipeFd ∧ (event.hup || event.epollIn || event.epollOut) = true

namespace Registry

variable {r : Registry} {fd : Int}

theorem opens_of_open {conn : Nat} (isOpen : r.fds fd = some conn) : r.opens fd = 1 := by
  rw [opens, isOpen]
  rfl

theorem opens_of_closed (closed : r.fds fd = none) : r.opens fd = 0 := by
  rw [opens, closed]
  rfl

theorem isSome_of_opens (held : 0 < r.opens fd) : (r.fds fd).isSome := by
  by_contra closed
  rw [opens, if_neg closed] at held
  exact Nat.lt_irrefl 0 held

theorem armed_of_none (unwatched : r.epoll fd = none) : r.armed fd = 0 := by
  rw [armed, unwatched]

theorem armed_modFd (registered : (r.epoll fd).isSome) (event : EpollEvent) : (r.modFd fd event).armed fd = 1 := by
  obtain ⟨watch, found⟩ := Option.isSome_iff_exists.mp registered
  simp only [armed, modFd, Function.update_self, found, Option.map_some]

theorem armed_modFd_other {other : Int} (apart : other ≠ fd) (event : EpollEvent) :
    (r.modFd fd event).armed other = r.armed other := by
  simp only [armed, modFd, Function.update_of_ne apart]

theorem armed_evict_self (r : Registry) (fd : Int) : (r.evict [fd]).armed fd = 0 :=
  armed_of_none (if_pos List.mem_cons_self)

theorem armed_evict_other {other : Int} (apart : other ≠ fd) : (r.evict [fd]).armed other = r.armed other := by
  have kept : (r.evict [fd]).epoll other = r.epoll other := if_neg (by simpa using apart)
  rw [armed, armed, kept]

theorem opens_evict_self (r : Registry) (fd : Int) : (r.evict [fd]).opens fd = 0 :=
  opens_of_closed (if_pos List.mem_cons_self)

theorem opens_evict_other {other : Int} (apart : other ≠ fd) : (r.evict [fd]).opens other = r.opens other := by
  have kept : (r.evict [fd]).fds other = r.fds other := if_neg (by simpa using apart)
  rw [opens, opens, kept]

theorem open_evict {other : Int} (still : ((r.evict [fd]).fds other).isSome) : other ≠ fd ∧ (r.fds other).isSome := by
  have here : (if other ∈ [fd] then none else r.fds other).isSome := still
  split at here
  · cases here
  · rename_i apart
    exact ⟨by simpa using apart, here⟩

theorem closed_evict (closed : r.fds fd = none) (gone : List Int) : (r.evict gone).fds fd = none := by
  change (if fd ∈ gone then none else r.fds fd) = none
  rw [closed, ite_self]

theorem isSome_modFd {other : Int} (registered : (r.epoll other).isSome) (fd : Int) (event : EpollEvent) :
    ((r.modFd fd event).epoll other).isSome := by
  by_cases same : other = fd
  · subst same
    simpa only [modFd, Function.update_self, Option.isSome_map] using registered
  · simpa only [modFd, Function.update_of_ne same] using registered

end Registry

namespace ServerState

variable {s s' : ServerState} {fd : Int}

theorem delivered_connection (head : s.events = event :: rest) (notListen : event.fd ≠ s.listenFd)
    (notPipe : event.fd ≠ s.pipeFd) : s.delivered = event.fd :: { s with events := rest }.delivered := by
  rw [delivered, head, List.map_cons, List.filter_cons_of_pos (by simp [notListen, notPipe])]
  rfl

theorem delivered_service (head : s.events = event :: rest) (service : event.fd = s.listenFd ∨ event.fd = s.pipeFd) :
    s.delivered = { s with events := rest }.delivered := by
  rw [delivered, head, List.map_cons, List.filter_cons_of_neg (by rcases service with same | same <;> simp [same])]
  rfl

theorem runs_none (free : s.current = none) (fd : Int) : s.runs fd = 0 := by
  rw [runs, free]
  rfl

theorem appends_idle (idle : s.main = .dispatching) (fd : Int) : s.appends fd = 0 := by
  rw [appends, idle]
  rfl

theorem appends_self (busy : s.main = .appending fd) : s.appends fd = 1 := by
  rw [appends, busy, if_pos rfl]

theorem appends_other (busy : s.main = .appending fd) (apart : other ≠ fd) : s.appends other = 0 := by
  rw [appends, busy, if_neg fun same => apart (MainThread.appending.inj same).symm]

theorem runs_self (running : s.current = some fd) : s.runs fd = 1 := by
  rw [runs, if_pos running]

theorem runs_other (running : s.current = some fd) (apart : other ≠ fd) : s.runs other = 0 := by
  rw [runs, running, if_neg fun same => apart (Option.some.inj same).symm]

theorem current_running (locked : s.lock = some worker) (running : s.workers worker = .running task) :
    s.current = some task := by
  simp only [current, locked, running]

/-- What has a holder is open. -/
theorem Owned.isOpen (owned : s.Owned) (held : 0 < s.holders fd) : (s.registry.fds fd).isSome :=
  Registry.isSome_of_opens (owned.holders fd ▸ held)

theorem Owned.notPipe (owned : s.Owned) {conn : Nat} (isOpen : s.registry.fds fd = some conn) : fd ≠ s.pipeFd := by
  rintro rfl
  rw [owned.apart.2] at isOpen
  cases isOpen

/-- An event on an open connection is its only holder. -/
theorem Owned.eventOnly (owned : s.Owned) (head : s.events = event :: rest) (notListen : event.fd ≠ s.listenFd)
    {conn : Nat} (isOpen : s.registry.fds event.fd = some conn) :
    s.registry.armed event.fd = 0 ∧ s.tasks.count event.fd = 0 ∧ s.runs event.fd = 0 ∧ s.appends event.fd = 0 ∧
      { s with events := rest }.delivered.count event.fd = 0 := by
  have one := owned.holders event.fd
  rw [Registry.opens_of_open isOpen, ServerState.holders, delivered_connection head notListen (owned.notPipe isOpen),
    List.count_cons_self] at one
  refine ⟨?_, ?_, ?_, ?_, ?_⟩ <;> omega

theorem Owned.notCount (owned : s.Owned) (head : s.events = event :: rest) (notListen : event.fd ≠ s.listenFd)
    {conn : Nat} (isOpen : s.registry.fds event.fd = some conn) (apart : fd ≠ event.fd) :
    { s with events := rest }.delivered.count fd = s.delivered.count fd := by
  rw [delivered_connection head notListen (owned.notPipe isOpen), List.count_cons_of_ne (Ne.symm apart)]

/-- A step on an open connection whose event is at hand: it is closed or given one new holder. -/
theorem Owned.handled (owned : s.Owned) (head : s.events = event :: rest) (notListen : event.fd ≠ s.listenFd)
    {conn : Nat} (isOpen : s.registry.fds event.fd = some conn) (linked : s'.registry.Linked)
    (events : s'.events = rest) (tasks : s'.tasks = s.tasks) (lock : s'.lock = s.lock)
    (workers : s'.workers = s.workers)
    (listen : s'.listenFd = s.listenFd) (pipe : s'.pipeFd = s.pipeFd)
    (here : s'.registry.armed event.fd + s'.appends event.fd = s'.registry.opens event.fd)
    (there : ∀ fd, fd ≠ event.fd → s'.registry.armed fd = s.registry.armed fd ∧ s'.appends fd = s.appends fd ∧
      s'.registry.fds fd = s.registry.fds fd)
    (registered : ∀ fd, (s'.registry.fds fd).isSome → (s'.registry.epoll fd).isSome)
    (own : ∀ fd, (s'.registry.fds fd).isSome → (s'.https fd).sockFd = fd) : s'.Owned := by
  have runs : s'.runs = s.runs := by
    unfold ServerState.runs current
    rw [lock, workers]
  have left : s'.delivered = { s with events := rest }.delivered := by
    unfold delivered
    rw [events, listen, pipe]
  refine ⟨linked, fun fd => ?_, registered, own, ?_, ?_, ?_⟩
  · by_cases same : fd = event.fd
    · obtain ⟨_, queued, run, _, again⟩ := owned.eventOnly head notListen isOpen
      rw [same, ServerState.holders, tasks, runs, left, queued, run, again]
      omega
    · obtain ⟨armed, appends, fds⟩ := there fd same
      have before := owned.holders fd
      rw [ServerState.holders, ← owned.notCount head notListen isOpen same] at before
      rw [ServerState.holders, tasks, runs, left, armed, appends, before, Registry.opens, Registry.opens, fds]
  · rw [lock, workers]
    exact owned.alone
  · have apart (fd : Int) (unused : s.registry.fds fd = none) : s'.registry.fds fd = none := by
      rw [(there fd fun same => by rw [← same, unused] at isOpen; cases isOpen).2.2, unused]
    rw [listen, pipe]
    exact ⟨apart _ owned.apart.1, apart _ owned.apart.2⟩
  · rw [events, listen, pipe]
    exact fun other member => owned.flagged other (by rw [head]; exact List.mem_cons_of_mem _ member)

theorem Owned.flaggedTail (owned : s.Owned) (head : s.events = event :: rest) (other : Ready) (member : other ∈ rest) :
    other.fd = s.listenFd ∨ other.fd = s.pipeFd ∧ other.hup = false ∧ other.epollIn = true ∨
      other.fd ≠ s.pipeFd ∧ (other.hup || other.epollIn || other.epollOut) = true :=
  owned.flagged other (by rw [head]; exact List.mem_cons_of_mem _ member)

/-- An event on the listening socket or the pipe that changes no connection. -/
theorem Owned.served (owned : s.Owned) (head : s.events = event :: rest)
    (service : event.fd = s.listenFd ∨ event.fd = s.pipeFd) (timeout stopServer : Bool) :
    { s with events := rest, timeout, stopServer }.Owned := by
  refine ⟨owned.linked, fun fd => ?_, owned.registered, owned.own, owned.alone, owned.apart, owned.flaggedTail head⟩
  have before := owned.holders fd
  rw [ServerState.holders, delivered_service head service] at before
  exact before

theorem Owned.admit (owned : s.Owned) (head : s.events = event :: rest) (listen : event.fd = s.listenFd)
    (closed : s.registry.fds connfd = none) (notListen : connfd ≠ s.listenFd)
    (notPipe : connfd ≠ s.pipeFd) (inRange : 0 ≤ connfd ∧ connfd < maxFd)
    (gains : Gains s.registry.timerHeap timer connfd (now + 3 * timeslot) heap) (conn : CHttp)
    (sockFd : conn.sockFd = connfd) :
    { s with
      events := rest
      https := Function.update s.https connfd conn
      registry := s.registry.admitted connfd timer heap now }.Owned := by
  refine ⟨owned.linked.admitted closed gains inRange, fun fd => ?_, fun fd isOpen => ?_, fun fd isOpen => ?_,
    owned.alone, ⟨?_, ?_⟩, owned.flaggedTail head⟩
  · have before := owned.holders fd
    rw [ServerState.holders, delivered_service head (.inl listen)] at before
    by_cases same : fd = connfd
    · subst same
      rw [Registry.opens_of_closed closed] at before
      have armed : (s.registry.admitted fd timer heap now).armed fd = 1 := by
        simp only [Registry.armed, Registry.admitted, Function.update_self]
      rw [Registry.opens_of_open (Registry.admitted_self ..)]
      change (s.registry.admitted fd timer heap now).armed fd + s.tasks.count fd + s.runs fd + s.appends fd +
        { s with events := rest }.delivered.count fd = 1
      omega
    · have armed : (s.registry.admitted connfd timer heap now).armed fd = s.registry.armed fd := by
        simp only [Registry.armed, Registry.admitted, Function.update_of_ne same]
      have opens : (s.registry.admitted connfd timer heap now).opens fd = s.registry.opens fd := by
        simp only [Registry.opens, Registry.admitted, Function.update_of_ne same]
      change (s.registry.admitted connfd timer heap now).armed fd + s.tasks.count fd + s.runs fd + s.appends fd +
        { s with events := rest }.delivered.count fd = (s.registry.admitted connfd timer heap now).opens fd
      rw [armed, opens, ← before]
  · by_cases same : fd = connfd
    · have epoll : (s.registry.admitted connfd timer heap now).epoll fd = some (.armed .epollIn) := by
        rw [same]
        exact Function.update_self ..
      exact Option.isSome_of_eq_some epoll
    · have epoll : (s.registry.admitted connfd timer heap now).epoll fd = s.registry.epoll fd :=
        Function.update_of_ne same ..
      have fds : (s.registry.admitted connfd timer heap now).fds fd = s.registry.fds fd :=
        Function.update_of_ne same ..
      exact (congrArg Option.isSome epoll).trans (owned.registered fd (fds ▸ isOpen))
  · by_cases same : fd = connfd
    · subst same
      have https : Function.update s.https fd conn fd = conn := Function.update_self ..
      exact (congrArg CHttp.sockFd https).trans sockFd
    · have https : Function.update s.https connfd conn fd = s.https fd := Function.update_of_ne same ..
      have fds : (s.registry.admitted connfd timer heap now).fds fd = s.registry.fds fd :=
        Function.update_of_ne same ..
      exact (congrArg CHttp.sockFd https).trans (owned.own fd (fds ▸ isOpen))
  · exact (Function.update_of_ne (Ne.symm notListen) ..).trans owned.apart.1
  · exact (Function.update_of_ne (Ne.symm notPipe) ..).trans owned.apart.2

/-- The delivery of events takes the watch from each descriptor it concerns. -/
theorem Owned.wait {events : List Ready} (owned : s.Owned) (handled : s.events = [])
    (delivers : s.Delivers (.wait events)) :
    { s with registry := s.registry.disarm (events.map Ready.fd), events }.Owned := by
  obtain ⟨distinct, deliverable⟩ := delivers
  refine ⟨owned.linked.watch _, fun fd => ?_, fun fd isOpen => ?_, owned.own, owned.alone, owned.apart,
    fun event member => ?_⟩
  · have before := owned.holders fd
    have none_ : s.delivered = [] := by
      rw [delivered, handled]
      rfl
    rw [ServerState.holders, none_, List.count_nil] at before
    change (s.registry.disarm (events.map Ready.fd)).armed fd + s.tasks.count fd + s.runs fd + s.appends fd +
      ((events.map Ready.fd).filter fun fd => fd != s.listenFd && fd != s.pipeFd).count fd = s.registry.opens fd
    by_cases among : fd ∈ events.map Ready.fd
    · have off : (s.registry.disarm (events.map Ready.fd)).armed fd = 0 := by
        simp only [Registry.armed, Registry.disarm, if_pos among]
        cases s.registry.epoll fd <;> rfl
      by_cases service : fd = s.listenFd ∨ fd = s.pipeFd
      · have closed : s.registry.fds fd = none := by
          rcases service with rfl | rfl
          · exact owned.apart.1
          · exact owned.apart.2
        have skipped : ((events.map Ready.fd).filter fun fd => fd != s.listenFd && fd != s.pipeFd).count fd = 0 := by
          refine List.count_eq_zero_of_not_mem fun member => ?_
          have kept := (List.mem_filter.mp member).2
          rcases service with rfl | rfl <;> simp at kept
        rw [Registry.opens_of_closed closed] at before ⊢
        omega
      · have counted : ((events.map Ready.fd).filter fun fd => fd != s.listenFd && fd != s.pipeFd).count fd = 1 := by
          refine List.count_eq_one_of_mem (distinct.filter _) (List.mem_filter.mpr ⟨among, ?_⟩)
          simpa [not_or] using service
        have on : s.registry.armed fd = 1 := by
          obtain ⟨event, member, rfl⟩ := List.mem_map.mp among
          rcases deliverable event member with listen | pipe | ⟨⟨watched, armed⟩, _⟩
          · exact absurd (.inl listen) service
          · exact absurd (.inr pipe.1) service
          · simp only [Registry.armed, armed]
        omega
    · have kept : (s.registry.disarm (events.map Ready.fd)).armed fd = s.registry.armed fd := by
        simp only [Registry.armed, Registry.disarm, if_neg among]
      have skipped : ((events.map Ready.fd).filter fun fd => fd != s.listenFd && fd != s.pipeFd).count fd = 0 :=
        List.count_eq_zero_of_not_mem fun member => among (List.mem_filter.mp member).1
      omega
  · have registered := owned.registered fd isOpen
    change (if fd ∈ events.map Ready.fd then (s.registry.epoll fd).map _ else s.registry.epoll fd).isSome
    split
    · rw [Option.isSome_map]
      exact registered
    · exact registered
  · rcases deliverable event member with listen | pipe | ⟨⟨watched, armed⟩, some_⟩
    · exact .inl listen
    · exact .inr (.inl pipe)
    · have held : 0 < s.holders event.fd := by
        simp only [ServerState.holders, Registry.armed, armed]
        omega
      refine .inr (.inr ⟨fun pipe => ?_, some_⟩)
      rw [owned.holders, pipe, Registry.opens_of_closed owned.apart.2] at held
      exact Nat.lt_irrefl 0 held

/-- Nothing is closed by a tick in time. -/
theorem Owned.tick (owned : s.Owned) (delivers : s.Delivers (.timer now)) (done : s.registry.tick now = .ok r) :
    r.Linked ∧ r.fds = s.registry.fds ∧ r.epoll = s.registry.epoll := by
  have quiet {popped : List TimerPtr} {heap : CTimerHeap} (pops : s.registry.timerHeap.Ticked now popped heap) :
      s.registry.timerHeap.called popped = [] := by
    rw [CTimerHeap.called, List.map_eq_nil_iff, List.filter_eq_nil_iff]
    intro timer member live
    have later := delivers timer (pops.members timer member) (Option.isSome_iff_ne_none.mp live)
    exact absurd (pops.due timer member) (not_le.mpr later)
  obtain ⟨popped, heap, ticked, pops⟩ := Registry.tick_eq owned.linked.placed now fun popped heap pops => by
    rw [quiet pops]
    exact ⟨List.nodup_nil, fun _ member => absurd member List.not_mem_nil⟩
  obtain rfl := Except.ok.inj (done.symm.trans ticked)
  have linked := owned.linked.ticked pops (by rw [quiet pops]; exact List.nodup_nil) (by simp [quiet pops])
  refine ⟨linked, ?_, ?_⟩ <;> simp [Registry.ticked, Registry.evict, quiet pops]

/-- The worker that is not waiting holds the lock. -/
theorem Owned.runs_eq (owned : s.Owned) (running : s.workers worker = .running task) : s.current = some task :=
  current_running (owned.alone worker (by rw [running]; exact Worker.noConfusion)) running

theorem current_waiting (free : s.lock = none) : s.current = none := by
  simp only [current, free]

theorem Owned.take (owned : s.Owned) (queued : s.tasks = task :: later) (free : s.lock = none) :
    { s with
      tasks := later, lock := some worker, workers := Function.update s.workers worker (.running task) }.Owned := by
  refine ⟨owned.linked, fun fd => ?_, owned.registered, owned.own, fun other busy => ?_, owned.apart, owned.flagged⟩
  · have before := owned.holders fd
    rw [ServerState.holders, runs_none (current_waiting free), queued] at before
    have running : { s with
        tasks := later, lock := some worker, workers := Function.update s.workers worker (.running task) }.current =
          some task := current_running rfl (Function.update_self ..)
    rw [ServerState.holders]
    change s.registry.armed fd + later.count fd + _ + s.appends fd + s.delivered.count fd = s.registry.opens fd
    by_cases same : fd = task
    · subst same
      rw [List.count_cons_self] at before
      rw [runs_self running]
      omega
    · rw [List.count_cons_of_ne (Ne.symm same)] at before
      rw [runs_other running same]
      omega
  · by_cases same : other = worker
    · rw [same]
    · have waits : s.workers other = .waiting := by
        by_contra away
        rw [owned.alone other away] at free
        cases free
      exact absurd ((Function.update_of_ne same ..).trans waits) busy

/-- A worker is through with a task: its connection has a watch again, or is closed. -/
theorem Owned.finish (owned : s.Owned) (running : s.workers worker = .running task)
    (done : (s.https task).httpParseTask answer = .ok (conn, effects)) :
    { s with
      https := Function.update s.https task conn
      registry := effects.foldl Registry.perform s.registry
      workers := Function.update s.workers worker .returning }.Owned := by
  have runs := owned.runs_eq running
  have one := owned.holders task
  rw [ServerState.holders, runs_self runs] at one
  have isOpen : (s.registry.fds task).isSome := owned.isOpen (by rw [ServerState.holders, runs_self runs]; omega)
  have own := owned.own task isOpen
  obtain ⟨number, found⟩ := Option.isSome_iff_exists.mp isOpen
  rw [Registry.opens_of_open found] at one
  have locked := owned.alone worker (by rw [running]; exact Worker.noConfusion)
  have stopped (registry : Registry) (https : Int → CHttp) : { s with
      https, registry, workers := Function.update s.workers worker .returning }.current = none := by
    simp only [current, locked, Function.update_self]
  have alone : ∀ other, Function.update s.workers worker .returning other ≠ .waiting → s.lock = some other := by
    intro other busy
    by_cases same : other = worker
    · rw [same, locked]
    · rw [Function.update_of_ne same] at busy
      exact owned.alone other busy
  have others (fd : Int) (apart : fd ≠ task) :
      s.registry.armed fd + s.tasks.count fd + 0 + s.appends fd + s.delivered.count fd = s.registry.opens fd := by
    rw [← owned.holders fd, ServerState.holders, runs_other runs apart]
  rcases httpParseTask_hands done with ⟨watch, kept, rfl⟩ | ⟨dead, _, _⟩ | ⟨_, rfl⟩
  · rw [own]
    refine ⟨owned.linked.watch _, fun fd => ?_, fun fd fdOpen => ?_, fun fd fdOpen => ?_, alone, owned.apart,
      owned.flagged⟩
    · rw [ServerState.holders, runs_none (stopped _ _)]
      change (s.registry.modFd task watch).armed fd + s.tasks.count fd + 0 + s.appends fd + s.delivered.count fd =
        s.registry.opens fd
      by_cases same : fd = task
      · rw [same, Registry.armed_modFd (owned.registered task isOpen), Registry.opens_of_open found]
        omega
      · rw [Registry.armed_modFd_other same, others fd same]
    · exact Registry.isSome_modFd (owned.registered fd fdOpen) task watch
    · by_cases same : fd = task
      · subst same
        exact (congrArg CHttp.sockFd (Function.update_self (f := s.https) ..)).trans (kept.trans own)
      · exact (congrArg CHttp.sockFd (Function.update_of_ne (f := s.https) same ..)).trans (owned.own fd fdOpen)
  · have alive := (owned.linked.inRange task number found).1
    omega
  · have evicted : [Effect.removeFd (s.https task).sockFd, .httpCnt (-1)].foldl Registry.perform s.registry =
        s.registry.evict [task] := by
      rw [own]
      exact Registry.closeCount_eq ..
    rw [evicted]
    have linked : (s.registry.evict [task]).Linked := owned.linked.evict (List.nodup_singleton task)
      (by simpa using isOpen) s.registry.timerHeap owned.linked.placed s.registry.clock fun _ _ _ _ leads => leads
    refine ⟨linked, fun fd => ?_, fun fd fdOpen => ?_, fun fd fdOpen => ?_, alone, ?_, owned.flagged⟩
    · rw [ServerState.holders, runs_none (stopped _ _)]
      change (s.registry.evict [task]).armed fd + s.tasks.count fd + 0 + s.appends fd + s.delivered.count fd =
        (s.registry.evict [task]).opens fd
      by_cases same : fd = task
      · rw [same, Registry.armed_evict_self, Registry.opens_evict_self]
        omega
      · rw [Registry.armed_evict_other same, Registry.opens_evict_other same, others fd same]
    · obtain ⟨apart, before⟩ := Registry.open_evict fdOpen
      exact (congrArg Option.isSome (if_neg (by simpa using apart))).trans (owned.registered fd before)
    · obtain ⟨apart, before⟩ := Registry.open_evict fdOpen
      exact (congrArg CHttp.sockFd (Function.update_of_ne (f := s.https) apart ..)).trans (owned.own fd before)
    · exact ⟨Registry.closed_evict owned.apart.1 [task], Registry.closed_evict owned.apart.2 [task]⟩

theorem Owned.unlock (owned : s.Owned) (returning : s.workers worker = .returning) :
    { s with lock := none, workers := Function.update s.workers worker .waiting }.Owned := by
  have locked := owned.alone worker (by rw [returning]; exact Worker.noConfusion)
  have idle : s.current = none := by
    simp only [current, locked, returning]
  refine ⟨owned.linked, fun fd => ?_, owned.registered, owned.own, fun other busy => ?_, owned.apart, owned.flagged⟩
  · have before := owned.holders fd
    rw [ServerState.holders, runs_none idle] at before
    rw [ServerState.holders, runs_none (current_waiting rfl)]
    exact before
  · by_cases same : other = worker
    · rw [same] at busy
      exact absurd (Function.update_self ..) busy
    · have away : s.workers other ≠ .waiting := fun waits => busy ((Function.update_of_ne same ..).trans waits)
      exact absurd (Option.some.inj ((owned.alone other away).symm.trans locked)) same

/-- A connection that is accepted and closed at once. -/
theorem Owned.refuse (owned : s.Owned) (head : s.events = event :: rest) (listen : event.fd = s.listenFd)
    {connfd : Int} (closed : s.registry.fds connfd = none) :
    { s with events := rest, registry := (s.registry.opened connfd).close connfd }.Owned := by
  have served := owned.served head (.inl listen) s.timeout s.stopServer
  have fds := Registry.refused_fds closed
  have unwatched : s.registry.armed connfd = 0 := by
    have none_ := owned.holders connfd
    rw [Registry.opens_of_closed closed, ServerState.holders] at none_
    omega
  have armed (fd : Int) : ((s.registry.opened connfd).close connfd).armed fd = s.registry.armed fd := by
    by_cases same : fd = connfd
    · rw [same, unwatched, Registry.armed_of_none]
      exact Function.update_self ..
    · simp only [Registry.armed, Registry.close, Registry.opened, Function.update_of_ne same]
  refine ⟨owned.linked.refused closed, fun fd => ?_, fun fd isOpen => ?_, fun fd isOpen => owned.own fd (fds ▸ isOpen),
    owned.alone, ?_, served.flagged⟩
  · have before := served.holders fd
    rw [ServerState.holders] at before ⊢
    dsimp only at before ⊢
    rw [armed, Registry.opens, fds]
    exact before
  · have before : (s.registry.fds fd).isSome := fds ▸ isOpen
    have apart : fd ≠ connfd := fun same => by
      rw [same, closed] at before
      cases before
    have epoll : ((s.registry.opened connfd).close connfd).epoll fd = s.registry.epoll fd :=
      Function.update_of_ne apart ..
    exact (congrArg Option.isSome epoll).trans (owned.registered fd before)
  · exact ⟨(congrFun fds _).trans owned.apart.1, (congrFun fds _).trans owned.apart.2⟩

theorem own_update (own : ∀ fd, (s.registry.fds fd).isSome → (s.https fd).sockFd = fd) {conn : CHttp}
    (sockFd : conn.sockFd = fd) (other : Int) (isOpen : (s.registry.fds other).isSome) :
    (Function.update s.https fd conn other).sockFd = other := by
  by_cases same : other = fd
  · rw [same, Function.update_self, sockFd]
  · rw [Function.update_of_ne same, own other isOpen]

section Event

variable {event : Ready} {rest : List Ready} {conn : Nat} (owned : s.Owned) (idle : s.main = .dispatching)
  (head : s.events = event :: rest) (notListen : event.fd ≠ s.listenFd) (isOpen : s.registry.fds event.fd = some conn)
include owned idle head notListen isOpen

theorem Owned.drop {r : Registry} (leads : (s.registry.clientDatas event.fd).Leads s.registry.timerHeap event.fd timer)
    (watched : r = s.registry ∨ r = s.registry.modFd (s.https event.fd).sockFd .epollIn) (http : CHttp) :
    { s with
      events := rest
      https := Function.update s.https event.fd http
      registry := r.dropped event.fd timer }.Owned := by
  rw [owned.own event.fd (Option.isSome_of_eq_some isOpen)] at watched
  have fds : r.fds = s.registry.fds := by
    rcases watched with rfl | rfl <;> rfl
  have linked : (r.dropped event.fd timer).Linked := by
    rcases watched with rfl | rfl
    · exact owned.linked.dropped leads (Option.isSome_of_eq_some isOpen)
    · exact (owned.linked.watch _).dropped leads (Option.isSome_of_eq_some isOpen)
  have epoll (fd : Int) (apart : fd ≠ event.fd) : r.epoll fd = s.registry.epoll fd := by
    rcases watched with rfl | rfl
    · rfl
    · exact Function.update_of_ne apart ..
  have left {fd : Int} (isOpen : ((r.dropped event.fd timer).fds fd).isSome) :
      fd ≠ event.fd ∧ (s.registry.fds fd).isSome := by
    obtain ⟨apart, before⟩ := Registry.open_evict (r := r) isOpen
    exact ⟨apart, fds ▸ before⟩
  refine owned.handled head notListen isOpen linked rfl rfl rfl rfl rfl rfl ?_ (fun fd apart => ⟨?_, rfl, ?_⟩)
    (fun fd still => ?_) (fun fd still => ?_)
  · exact (congrArg₂ (· + ·) (Registry.armed_evict_self r event.fd) (appends_idle idle _)).trans
      (Registry.opens_evict_self r event.fd).symm
  · refine (Registry.armed_evict_other (r := r) apart).trans ?_
    rw [Registry.armed, Registry.armed, epoll fd apart]
  · exact (if_neg (by simpa using apart)).trans (congrFun fds fd)
  · obtain ⟨apart, before⟩ := left still
    have kept : (r.dropped event.fd timer).epoll fd = s.registry.epoll fd :=
      (if_neg (by simpa using apart)).trans (epoll fd apart)
    exact (congrArg Option.isSome kept).trans (owned.registered fd before)
  · obtain ⟨apart, before⟩ := left still
    exact (congrArg CHttp.sockFd (Function.update_of_ne (f := s.https) apart ..)).trans (owned.own fd before)

theorem Owned.enterAppend (read : (s.https event.fd).read received = (http, some true)) :
    { s with
      events := rest, https := Function.update s.https event.fd http, main := .appending event.fd }.Owned := by
  have sockFd : http.sockFd = event.fd := by
    rw [← owned.own event.fd (Option.isSome_of_eq_some isOpen), ← CHttp.read_sockFd (s.https event.fd) received, read]
  refine owned.handled head notListen isOpen owned.linked rfl rfl rfl rfl rfl rfl ?_ (fun fd apart => ⟨rfl, ?_, rfl⟩)
    owned.registered (own_update owned.own sockFd)
  · rw [appends_self rfl, (owned.eventOnly head notListen isOpen).1]
    exact (Registry.opens_of_open isOpen).symm
  · rw [appends_other rfl apart, appends_idle idle]

theorem Owned.write (sockFd : http.sockFd = (s.https event.fd).sockFd) (watch : EpollEvent)
    (renews : Renews s.registry.timerHeap timer (now + 3 * timeslot) heap) :
    { s with
      events := rest
      https := Function.update s.https event.fd http
      registry := (s.registry.modFd (s.https event.fd).sockFd watch).renewed event.fd heap now }.Owned := by
  have here := Option.isSome_of_eq_some isOpen
  have own := owned.own event.fd here
  rw [own]
  refine owned.handled head notListen isOpen ((owned.linked.watch _).renewed renews) rfl rfl rfl rfl rfl rfl ?_
    (fun fd apart => ⟨Registry.armed_modFd_other apart watch, rfl, rfl⟩)
    (fun fd still => Registry.isSome_modFd (owned.registered fd still) event.fd watch)
    (own_update owned.own (sockFd.trans own))
  exact (congrArg₂ (· + ·) (Registry.armed_modFd (owned.registered event.fd here) watch) (appends_idle idle _)).trans
    (Registry.opens_of_open isOpen).symm

end Event

theorem Owned.append (owned : s.Owned) (busy : s.main = .appending fd)
    (renews : Renews s.registry.timerHeap timer (now + 3 * timeslot) heap) :
    { s with tasks := s.tasks ++ [fd], main := .dispatching, registry := s.registry.renewed fd heap now }.Owned := by
  refine ⟨owned.linked.renewed renews, fun other => ?_, owned.registered, owned.own, owned.alone, owned.apart,
    owned.flagged⟩
  have before := owned.holders other
  rw [ServerState.holders] at before
  rw [ServerState.holders, appends_idle rfl]
  change s.registry.armed other + (s.tasks ++ [fd]).count other + s.runs other + 0 + s.delivered.count other =
    s.registry.opens other
  by_cases same : other = fd
  · subst same
    rw [appends_self busy] at before
    rw [List.count_append, List.count_singleton_self]
    omega
  · rw [appends_other busy same] at before
    rw [List.count_append, List.count_singleton, if_neg (by simpa using Ne.symm same)]
    omega

theorem Owned.next (owned : s.Owned) (delivers : s.Delivers step) (room : s.HasRoom step)
    (next : s.Next step (.ok s')) : s'.Owned := by
  cases next with
  | wait idle handled events => exact owned.wait handled delivers
  | ignored idle head notListen noHup noIn noOut =>
    rcases owned.flagged _ (by rw [head]; exact List.mem_cons_self) with listen | ⟨_, _, isIn⟩ | ⟨_, some_⟩
    · exact absurd listen notListen
    · rw [noIn] at isIn
      cases isIn
    · rw [noHup, noIn, noOut] at some_
      cases some_
  | signals idle head pipe => exact owned.served head (.inr pipe) _ _
  | acceptFails idle head listen => exact owned.served head (.inl listen) _ _
  | refuse idle head listen closed => exact owned.refuse head listen closed
  | accept idle head listen closed notListen notPipe inRange gains =>
    exact owned.admit head listen closed notListen notPipe inRange gains _ rfl
  | drop idle head notListen isOpen leads watched http =>
    exact owned.drop idle head notListen isOpen leads watched http
  | refuseTask idle head notListen isOpen leads noHup readable read full renews =>
    exact absurd (room _ _ head notListen noHup readable (by rw [read])) (not_lt.mpr full)
  | enterAppend idle head notListen isOpen read roomy => exact owned.enterAppend idle head notListen isOpen read
  | write idle head notListen isOpen leads sockFd watch renews =>
    exact owned.write idle head notListen isOpen sockFd watch renews
  | append busy free isOpen leads renews => exact owned.append busy renews
  | timer idle handled done =>
    obtain ⟨linked, fds, epoll⟩ := owned.tick delivers done
    refine ⟨linked, fun fd => ?_, fun fd isOpen => ?_, fun fd isOpen => owned.own fd (fds ▸ isOpen), owned.alone, ?_,
      owned.flagged⟩
    · have before := owned.holders fd
      rw [ServerState.holders, Registry.armed, Registry.opens] at before ⊢
      dsimp only
      rw [fds, epoll]
      exact before
    · rw [epoll]
      exact owned.registered fd (fds ▸ isOpen)
    · rw [fds]
      exact owned.apart
  | take queued free waiting => exact owned.take queued free
  | finish running done => exact owned.finish running done
  | unlock returning => exact owned.unlock returning

theorem start_owned (listenFd pipeFd now : Int) (positive : 0 < capacity) :
    (start listenFd pipeFd capacity now).Owned :=
  ⟨(start_attended listenFd pipeFd now positive).linked, fun _ => rfl, nofun, nofun, fun _ busy => absurd rfl busy,
    ⟨rfl, rfl⟩, nofun⟩

theorem Owned.expected (owned : s.Owned) (head : s.events = event :: rest) : s.Expected event := by
  rcases owned.flagged event (by rw [head]; exact List.mem_cons_self) with listen | pipe | ⟨notPipe, _⟩
  · exact .inl listen
  · exact .inr (.inl pipe)
  · by_cases listen : event.fd = s.listenFd
    · exact .inl listen
    · refine .inr (.inr (owned.isOpen ?_))
      rw [ServerState.holders, delivered_connection head listen notPipe, List.count_cons_self]
      omega

theorem Owned.act (owned : s.Owned) (delivers : s.Delivers step) (done : s.act step = some result) :
    s.Next step result := by
  refine act_next owned.linked (fun event rest head => owned.expected head) (fun fd busy => ?_)
    (fun answers same => by subst same; exact delivers) done
  exact owned.isOpen (by rw [ServerState.holders, appends_self busy]; omega)

theorem reachable_owned (reachable : serverSystem.Reachable (fun s step => s.Delivers step ∧ s.HasRoom step) s) :
    s.Owned :=
  reachable.invariant Owned
    (fun _ ⟨listenFd, pipeFd, _, now, positive, same⟩ => same ▸ start_owned listenFd pipeFd now positive)
    fun _ _ _ owned ⟨delivers, room⟩ done => owned.next delivers room (owned.act delivers done)

theorem Owned.ownedOnce (owned : s.Owned) (isOpen : (s.registry.fds fd).isSome) (between : s.Between fd) :
    s.OwnedOnce fd := by
  obtain ⟨conn, found⟩ := Option.isSome_iff_exists.mp isOpen
  have one := owned.holders fd
  have noEvent : s.delivered.count fd = 0 :=
    List.count_eq_zero_of_not_mem fun member => between.1 (List.mem_filter.mp member).1
  rw [Registry.opens_of_open found, ServerState.holders, noEvent, appends, if_neg between.2] at one
  have armed (event : EpollEvent) (watched : s.registry.epoll fd = some (.armed event)) : s.registry.armed fd = 1 := by
    simp only [Registry.armed, watched]
  have queued (member : fd ∈ s.tasks) : 0 < s.tasks.count fd := List.count_pos_iff.mpr member
  have running (worker : Nat) (runs : s.workers worker = .running fd) : s.runs fd = 1 := runs_self (owned.runs_eq runs)
  refine ⟨?_, by omega, fun worker worker' here there => ?_⟩
  · by_cases current : s.current = some fd
    · have runs := runs_self current
      refine ⟨.running, ?_, fun other isIn => ?_⟩
      · simp only [ServerState.current] at current
        split at current
        · cases current
        · rename_i worker _
          split at current
          · rename_i task busy
            exact ⟨worker, Option.some.inj current ▸ busy⟩
          · cases current
      · cases other with
        | armedIn => have := armed _ isIn; omega
        | armedOut => have := armed _ isIn; omega
        | queued => have := queued isIn; omega
        | running => rfl
    · have still (worker : Nat) : s.workers worker ≠ .running fd := fun runs => current (owned.runs_eq runs)
      rw [runs, if_neg current] at one
      by_cases member : fd ∈ s.tasks
      · have many := queued member
        refine ⟨.queued, member, fun other isIn => ?_⟩
        cases other with
        | armedIn => have := armed _ isIn; omega
        | armedOut => have := armed _ isIn; omega
        | queued => rfl
        | running => exact absurd isIn.choose_spec (still _)
      · rw [List.count_eq_zero_of_not_mem member] at one
        unfold Registry.armed at one
        split at one
        · rename_i event watched
          have away : ¬ ∃ worker, s.workers worker = .running fd := fun ⟨worker, runs⟩ => still worker runs
          cases event with
          | epollIn =>
            refine ⟨.armedIn, watched, fun other isIn => ?_⟩
            cases other <;> simp_all [IsIn]
          | epollOut =>
            refine ⟨.armedOut, watched, fun other isIn => ?_⟩
            cases other <;> simp_all [IsIn]
        · omega
  · have first := owned.alone worker (by rw [here]; exact Worker.noConfusion)
    have second := owned.alone worker' (by rw [there]; exact Worker.noConfusion)
    exact Option.some.inj (first.symm.trans second)

end ServerState

namespace ServerState

variable {s s' : ServerState}

/-- The checks of `Delivers`, for runs without a tick. -/
def delivers? (s : ServerState) : ServerStep → Bool
  | .wait events => decide (events.map Ready.fd).Nodup && events.all fun event =>
      event.fd == s.listenFd || event.fd == s.pipeFd && !event.hup && event.epollIn ||
        s.registry.armed event.fd == 1 && (event.hup || event.epollIn || event.epollOut)
  | .event answers => decide (answers.connfd < 0) || (s.registry.fds answers.connfd).isNone &&
      answers.connfd != s.listenFd && answers.connfd != s.pipeFd
  | .timer _ => false
  | _ => true

theorem delivers?_sound (may : s.delivers? step = true) : s.Delivers step := by
  cases step with
  | wait events =>
    simp only [delivers?, Bool.and_eq_true, decide_eq_true_eq, List.all_eq_true] at may
    refine ⟨may.1, fun event member => ?_⟩
    have check := may.2 event member
    simp only [Bool.or_eq_true, Bool.and_eq_true, beq_iff_eq, Bool.not_eq_true'] at check
    rcases check with (listen | ⟨⟨pipe, noHup⟩, isIn⟩) | ⟨armed, some_⟩
    · exact .inl listen
    · exact .inr (.inl ⟨pipe, noHup, isIn⟩)
    · refine .inr (.inr ⟨?_, by simpa only [Bool.or_eq_true] using some_⟩)
      unfold Registry.armed at armed
      split at armed
      · rename_i watched found
        exact ⟨watched, found⟩
      · cases armed
  | event answers =>
    simp only [delivers?, Bool.or_eq_true, Bool.and_eq_true, decide_eq_true_eq, Option.isNone_iff_eq_none,
      bne_iff_ne] at may
    exact may.imp_right fun ⟨⟨closed, notListen⟩, notPipe⟩ => ⟨closed, notListen, notPipe⟩
  | timer now => cases may
  | append | take | finish | unlock => trivial

/-- A check that is enough for `HasRoom`. -/
def hasRoom? (s : ServerState) : ServerStep → Bool
  | .event _ => decide (s.tasks.length < taskNum)
  | _ => true

theorem hasRoom?_sound (may : s.hasRoom? step = true) : s.HasRoom step := by
  cases step with
  | event answers =>
    intro _ _ _ _ _ _ _
    exact of_decide_eq_true may
  | wait | append | timer | take | finish | unlock => trivial

end ServerState

/-- While the queue of the pool has room for each request, each open connection is in one place. -/
theorem ownedOnce_of_reachable {s : ServerState} {fd : Int}
    (reachable : serverSystem.Reachable (fun s step => s.Delivers step ∧ s.HasRoom step) s)
    (isOpen : (s.registry.fds fd).isSome) (between : s.Between fd) : s.OwnedOnce fd :=
  (ServerState.reachable_owned reachable).ownedOnce isOpen between

/-- A client whose request is read and queued. -/
def clientSteps : List ServerStep :=
  [.wait [⟨3, false, true, false⟩], .event ⟨10, [], [], [], 0⟩,
    .wait [⟨10, false, true, false⟩], .event ⟨-1, [.received [71]], [], [], 1⟩, .append 2]

theorem clientQueued_ownedOnce : ∃ s : ServerState, s.tasks = [10] ∧ s.OwnedOnce 10 := by
  have checked : ((System.Reachable.follow ServerState.act (fun s step => s.delivers? step && s.hasRoom? step)
      (.start 3 5 1000 0) clientSteps).any fun s => s.tasks == [10] && (s.registry.fds 10).isSome &&
        s.main == .dispatching && s.events.isEmpty) = true := by
    decide +kernel
  obtain ⟨s, run, state⟩ := (Option.any_eq_true ..).mp checked
  simp only [Bool.and_eq_true, beq_iff_eq, List.isEmpty_iff] at state
  obtain ⟨⟨⟨tasks, isOpen⟩, main⟩, events⟩ := state
  refine ⟨s, tasks, ownedOnce_of_reachable (System.Reachable.followed (.init ⟨3, 5, 1000, 0, by decide, rfl⟩)
    (fun _ _ _ may => ?_) (fun _ _ _ => id) run) isOpen ⟨by simp [events], by simp [main]⟩⟩
  obtain ⟨delivers, room⟩ := Bool.and_eq_true_iff.mp may
  exact ⟨ServerState.delivers?_sound delivers, ServerState.hasRoom?_sound room⟩

/-- The descriptors of 101 clients. -/
def crowd : List Int := (List.range 101).map fun i : Nat => 10 + i

/-- They are accepted one by one, then all are readable at once and no worker takes a task. -/
def crowdSteps : List ServerStep :=
  (crowd.map fun fd => [.wait [⟨3, false, true, false⟩], .event ⟨fd, [], [], [], 0⟩]).flatten ++
    .wait (crowd.map fun fd => ⟨fd, false, true, false⟩) ::
      ((crowd.take 100).map fun _ => [.event ⟨-1, [.received [71]], [], [], 0⟩, .append 0]).flatten ++
        [.event ⟨-1, [.received [71]], [], [], 0⟩]

/-- The hundred and first finds the queue full and is left without a watch. -/
theorem crowd_run : ((System.Reachable.follow ServerState.act ServerState.delivers? (.start 3 5 1000 0) crowdSteps).any
    fun s => s.registry.epoll 110 == some .disarmed && (s.registry.fds 110).isSome && s.tasks == crowd.take 100 &&
      s.lock == none && s.main == .dispatching && s.events.isEmpty) = true := by
  decide +kernel

/-- A connection can be lost to all. -/
theorem crowd_orphan : ∃ s fd, serverSystem.Reachable ServerState.Delivers s ∧ (s.registry.fds fd).isSome ∧
    s.Between fd ∧ ¬ s.OwnedOnce fd := by
  obtain ⟨s, run, state⟩ := (Option.any_eq_true ..).mp crowd_run
  simp only [Bool.and_eq_true, beq_iff_eq, List.isEmpty_iff] at state
  obtain ⟨⟨⟨⟨⟨epoll, isOpen⟩, tasks⟩, lock⟩, main⟩, events⟩ := state
  have reachable : serverSystem.Reachable ServerState.Delivers s :=
    System.Reachable.followed (.init ⟨3, 5, 1000, 0, by decide, rfl⟩) (fun _ _ _ => ServerState.delivers?_sound)
      (fun _ _ _ => id) run
  refine ⟨s, 110, reachable, isOpen, ⟨by simp [events], by simp [main]⟩, fun owned => ?_⟩
  obtain ⟨situation, isIn, _⟩ := owned.place
  cases situation with
  | armedIn => simp [ServerState.IsIn, epoll] at isIn
  | armedOut => simp [ServerState.IsIn, epoll] at isIn
  | queued =>
    rw [ServerState.IsIn, tasks] at isIn
    revert isIn
    decide
  | running =>
    obtain ⟨worker, runs⟩ := isIn
    have locked := ServerState.reachable_exclusive reachable worker (by rw [runs]; exact Worker.noConfusion)
    rw [lock] at locked
    cases locked

end WSlyh.Server
