import WSlyh.Http.Service
import WSlyh.Server.Ownership
import WSlyh.Server.Reuse

/-! Each connection of the server is one of the connections that are followed by themselves: the calls that the
event loop and the workers make on its object, in the order they make them, are steps of the connection. -/

namespace WSlyh.Server

open Http Timer Lib Libc

/-- The call that a step makes on the object of a connection. -/
def ServerState.call (s : ServerState) : ServerStep → Option (Int × ConnStep)
  | .event answers =>
    match s.main, s.events with
    | .dispatching, event :: _ =>
      if event.fd = s.listenFd then
        if 0 ≤ answers.connfd ∧ s.registry.httpCnt < maxFd then some (answers.connfd, .init answers.connfd 0) else none
      else if event.hup then none
      else if event.fd = s.pipeFd ∧ event.epollIn then none
      else if event.epollIn then some (event.fd, .read answers.received)
      else if event.epollOut then some (event.fd, .write answers.written)
      else none
    | _, _ => none
  | .finish worker answer =>
    match s.workers worker with
    | .running task => some (task, .httpParse answer)
    | _ => none
  | _ => none

/-- How many tasks there are for a descriptor, in the queue, with a worker or on the way to the queue. -/
def ServerState.owed (s : ServerState) (fd : Int) : Nat := s.tasks.count fd + s.runs fd + s.appends fd

/-- The server, and the connection that has last been accepted at each descriptor. -/
structure Hosted where
  server : ServerState
  sessions : Int → Option Session

namespace Hosted

/-- The connection at a descriptor after a call on its object. -/
def called (h : Hosted) (fd : Int) : ConnStep → Option Session
  | .init sockfd triggerMode => some (.start (h.server.https fd) sockfd triggerMode)
  | step => (h.sessions fd).bind fun session => reached (session.act step)

/-- The connection at a descriptor after a step. Where no call is made on its object, it may be closed. -/
def sessionAfter (h : Hosted) (step : ServerStep) (server : ServerState) (fd : Int) : Option Session :=
  match h.server.call step with
  | some (callee, call) => if fd = callee then h.called fd call else h.sessions fd
  | none =>
    if (h.server.registry.fds fd).isSome ∧ server.registry.fds fd = none then h.called fd .close else h.sessions fd

def next (h : Hosted) (step : ServerStep) (server : ServerState) : Hosted := ⟨server, h.sessionAfter step server⟩

def act (h : Hosted) (step : ServerStep) : Option (Except Fault Hosted) :=
  (h.server.act step).map (.map (h.next step))

end Hosted

/-- What `epoll_wait` and `accept` may return: each descriptor once, for what it is watched for, and one that is not
in use. -/
def ServerState.Reports (s : ServerState) : ServerStep → Prop
  | .wait events => (events.map Ready.fd).Nodup ∧ ∀ event ∈ events,
      event.fd = s.listenFd ∨ event.fd = s.pipeFd ∧ event.hup = false ∧ event.epollIn = true ∨
        ∃ watched, s.registry.epoll event.fd = some (.armed watched) ∧
          (event.epollIn = true → watched = .epollIn) ∧ (event.epollOut = true → watched = .epollOut)
  | .event answers => s.Fresh answers.connfd
  | _ => True

/-- No descriptor is reused while a task for it is left, and each call is one that the connection may see. -/
structure Hosted.Allows (may : Int → Session → ConnStep → Prop) (h : Hosted) (step : ServerStep) : Prop where
  reports : h.server.Reports step
  spares : ∀ fd, h.server.inits step = some fd → h.server.owed fd = 0
  may : ∀ fd call session, h.server.call step = some (fd, call) → h.sessions fd = some session → may fd session call

def hostedSystem : System Hosted ServerStep where
  init h := ∃ s, serverSystem.init s ∧ h = ⟨s, fun _ => none⟩
  step h step h' := h.act step = some (.ok h')

section Effects

/-- `Write` asks for nothing but to send, to end a mapping and to watch its own descriptor. -/
def OwnEffect (fd : Int) : Effect → Prop
  | .modFd other _ _ => other = fd
  | .send _ | .munmap _ _ => True
  | .addFd _ _ | .removeFd _ | .httpCnt _ => False

variable {effects : List Effect} {fd : Int}

/-- The last watch that is asked for counts. -/
theorem epoll_of_own (own : ∀ effect ∈ effects, OwnEffect fd effect) (r : Registry) :
    (effects.foldl Registry.perform r).epoll fd =
      (armedBy effects).elim (r.epoll fd) fun event => (r.epoll fd).map fun _ => .armed event := by
  induction effects using List.reverseRecOn with
  | nil => rfl
  | append_singleton effects effect ih =>
    have before := ih fun effect member => own effect (List.mem_append_left _ member)
    have last := own effect (by simp)
    rw [List.foldl_append, List.foldl_cons, List.foldl_nil, armedBy, List.reverse_concat, List.findSome?_cons]
    cases effect with
    | modFd other event triggerMode =>
      obtain rfl : other = fd := last
      simp only [Registry.perform, Registry.modFd, Function.update_self, before, Effect.arms, Option.elim_some]
      cases armedBy effects <;> simp [Function.comp_def]
    | send bytes => exact before
    | munmap addr len => exact before
    | addFd | removeFd | httpCnt => exact last.elim

theorem unmmap_own (conn : CHttp) (fd : Int) : ∀ effect ∈ conn.unmmap.2, OwnEffect fd effect := by
  unfold CHttp.unmmap
  split
  · intro effect member
    rw [List.mem_singleton.mp member]
    trivial
  · exact fun _ member => absurd member List.not_mem_nil

theorem writeLoop_own (conn : CHttp) (results : List WritevResult) :
    ∀ effect ∈ (conn.writeLoop results).effects, OwnEffect conn.sockFd effect := by
  induction results generalizing conn with
  | nil => exact fun _ member => absurd member List.not_mem_nil
  | cons result results ih =>
    have counted : (conn.count (Libc.int32 result.ret)).sockFd = conn.sockFd := rfl
    have last (effect : Effect)
        (member : effect ∈ Effect.send (conn.offered.take result.ret.toNat) ::
          (conn.count (Libc.int32 result.ret)).unmmap.2 ++
            [(conn.count (Libc.int32 result.ret)).unmmap.1.modFd .epollIn]) : OwnEffect conn.sockFd effect := by
      rcases List.mem_append.mp member with sent | watched
      · rcases List.mem_cons.mp sent with rfl | unmapped
        · trivial
        · exact unmmap_own _ _ effect unmapped
      · rw [List.mem_singleton.mp watched]
        exact (unmmap_sockFd _).trans counted
    rw [CHttp.writeLoop]
    dsimp only
    split
    · split
      · intro effect member
        rcases List.mem_pair.mp member with rfl | rfl
        · trivial
        · rfl
      · intro effect member
        rcases List.mem_cons.mp member with rfl | unmapped
        · trivial
        · exact unmmap_own conn conn.sockFd effect unmapped
    · split
      · split <;> exact last
      · intro effect member
        rcases List.mem_cons.mp member with rfl | later
        · trivial
        · have onward := ih (conn.count (Libc.int32 result.ret)).advance effect later
          rwa [advance_sockFd, counted] at onward

theorem write_own (conn : CHttp) (results : List WritevResult) :
    ∀ effect ∈ (conn.write results).effects, OwnEffect conn.sockFd effect := by
  unfold CHttp.write
  split
  · intro effect member
    rw [List.mem_singleton.mp member]
    exact rfl
  · exact writeLoop_own conn results

end Effects

/-- The connection at a descriptor, as far as the server knows it. An event at hand is one the connection has been
watched for, and while there is a task, its `HttpParse` is still to come. -/
structure ServerState.Hosting (s : ServerState) (fd : Int) (run : AssemblyRun) : Prop where
  conn : run.conn = s.https fd
  sockFd : run.conn.sockFd = fd
  apart : fd ≠ s.listenFd ∧ fd ≠ s.pipeFd
  live : run.live = (s.registry.fds fd).isSome
  unwatched : s.registry.fds fd = none → s.registry.epoll fd = none
  armed : ∀ event, s.registry.epoll fd = some (.armed event) → run.armed = some event
  reported : ∀ ready ∈ s.events, ready.fd = fd → (∃ watched, run.armed = some watched ∧
    (ready.epollIn = true → watched = .epollIn) ∧ (ready.epollOut = true → watched = .epollOut)) ∧
    ∀ event, s.registry.epoll fd ≠ some (.armed event)
  owed : s.owed fd ≤ if run.queued then 1 else 0

/-- What the server has at a descriptor. -/
inductive Hosted.Place (may : Int → Session → ConnStep → Prop) (h : Hosted) (fd : Int) : Prop
  | unused (none_ : h.sessions fd = none) (fresh : h.server.https fd = default)
    (closed : h.server.registry.fds fd = none)
      (unwatched : h.server.registry.epoll fd = none) (idle : h.server.owed fd = 0)
  | used (session : Session) (found : h.sessions fd = some session)
    (reachable : sessionSystem.Reachable (may fd) session)
      (hosting : h.server.Hosting fd session.run)

/-- What a step does not touch of a descriptor. -/
structure ServerState.Spared (s s' : ServerState) (fd : Int) : Prop where
  https : s'.https fd = s.https fd
  fds : s'.registry.fds fd = s.registry.fds fd
  armed : ∀ event, s'.registry.epoll fd = some (.armed event) → s.registry.epoll fd = some (.armed event)
  unwatched : s.registry.epoll fd = none → s'.registry.epoll fd = none
  events : ∀ ready ∈ s'.events, ready ∈ s.events
  owed : s'.owed fd = s.owed fd
  sockets : s'.listenFd = s.listenFd ∧ s'.pipeFd = s.pipeFd

structure Hosted.Keeps (may : Int → Session → ConnStep → Prop) (h : Hosted) : Prop where
  attended : h.server.Attended
  exclusive : h.server.Exclusive
  places : ∀ fd, h.Place may fd

namespace ServerState

variable {s s' : ServerState} {fd : Int} {run : AssemblyRun}

theorem Hosting.spared (hosting : s.Hosting fd run) (spared : s.Spared s' fd) : s'.Hosting fd run := by
  refine ⟨hosting.conn.trans spared.https.symm, hosting.sockFd, ?_, ?_, fun closed => ?_, fun event watched => ?_,
    fun ready member here => ?_, ?_⟩
  · rw [spared.sockets.1, spared.sockets.2]
    exact hosting.apart
  · rw [spared.fds]
    exact hosting.live
  · exact spared.unwatched (hosting.unwatched (spared.fds ▸ closed))
  · exact hosting.armed event (spared.armed event watched)
  · obtain ⟨watched, off⟩ := hosting.reported ready (spared.events ready member) here
    exact ⟨watched, fun event again => off event (spared.armed event again)⟩
  · rw [spared.owed]
    exact hosting.owed

/-- While there is a task, the connection is not watched, and no event of it is at hand. -/
theorem Hosting.busy (hosting : s.Hosting fd run) (keeps : run.Keeps) (owes : 0 < s.owed fd) :
    run.queued = true ∧ run.armed = none ∧ (∀ event, s.registry.epoll fd ≠ some (.armed event)) ∧
      ∀ ready ∈ s.events, ready.fd ≠ fd := by
  have queued : run.queued = true := by
    by_contra away
    have none_ := hosting.owed
    rw [if_neg away] at none_
    omega
  have off := (keeps.queued queued).1
  refine ⟨queued, off, fun event watched => ?_, fun ready member here => ?_⟩
  · cases off.symm.trans (hosting.armed event watched)
  · obtain ⟨⟨_, watched, _⟩, _⟩ := hosting.reported ready member here
    cases off.symm.trans watched

/-- While the connection is watched there is no task for it. -/
theorem Hosting.idle (hosting : s.Hosting fd run) (keeps : run.Keeps) (watched : run.armed = some event) :
    s.owed fd = 0 := by
  by_contra owes
  cases (hosting.busy keeps (Nat.pos_of_ne_zero owes)).2.1.symm.trans watched

end ServerState

namespace Hosted

variable {may : Int → Session → ConnStep → Prop} {h : Hosted} {step : ServerStep} {s' : ServerState} {fd : Int}

/-- A descriptor on whose object no call is made, and which stays as open as it was. -/
theorem sessionAfter_spared (apart : ∀ callee call, h.server.call step = some (callee, call) → fd ≠ callee)
    (fds : s'.registry.fds fd = h.server.registry.fds fd) : h.sessionAfter step s' fd = h.sessions fd := by
  unfold sessionAfter
  split
  · rename_i callee call found
    exact if_neg (apart callee call found)
  · refine if_neg fun closes => ?_
    rw [fds] at closes
    rw [closes.2] at closes
    exact Bool.false_ne_true closes.1

theorem Place.spared (place : h.Place may fd)
    (apart : ∀ callee call, h.server.call step = some (callee, call) → fd ≠ callee)
    (spared : h.server.Spared s' fd) : (h.next step s').Place may fd := by
  have same := sessionAfter_spared apart spared.fds
  cases place with
  | unused none_ fresh closed unwatched idle =>
    exact .unused (same.trans none_) (spared.https.trans fresh) (spared.fds.trans closed) (spared.unwatched unwatched)
      (spared.owed.trans idle)
  | used session found reachable hosting => exact .used session (same.trans found) reachable (hosting.spared spared)

/-- What is open has a connection that lives. -/
theorem Place.of_open (place : h.Place may fd) (isOpen : (h.server.registry.fds fd).isSome) :
    ∃ session, h.sessions fd = some session ∧ sessionSystem.Reachable (may fd) session ∧
      h.server.Hosting fd session.run ∧ session.run.live = true := by
  cases place with
  | unused none_ fresh closed =>
    rw [closed] at isOpen
    cases isOpen
  | used session found reachable hosting => exact ⟨session, found, reachable, hosting, hosting.live.trans isOpen⟩

theorem Place.of_owed (place : h.Place may fd) (owes : 0 < h.server.owed fd) :
    ∃ session, h.sessions fd = some session ∧ sessionSystem.Reachable (may fd) session ∧
      h.server.Hosting fd session.run := by
  cases place with
  | unused none_ fresh closed unwatched idle => omega
  | used session found reachable hosting => exact ⟨session, found, reachable, hosting⟩

theorem called_of_act {session session' : Session} {call : ConnStep} (found : h.sessions fd = some session)
    (taken : session.act call = some (.ok session')) : h.called fd call = some session' := by
  cases call with
  | init sockfd triggerMode => cases taken
  | read | httpParse | write | close =>
    change (h.sessions fd).bind (fun session => reached (session.act _)) = _
    rw [found, Option.bind_some, taken]
    rfl

/-- The connection after a call on its object. -/
theorem Place.called {session session' : Session} {call : ConnStep} (calls : h.server.call step = some (fd, call))
    (found : h.sessions fd = some session) (reachable : sessionSystem.Reachable (may fd) session)
    (admits : may fd session call)
    (taken : session.act call = some (.ok session')) (hosting : s'.Hosting fd session'.run) :
    (h.next step s').Place may fd := by
  refine .used session' ?_ (reachable.step admits taken) hosting
  change h.sessionAfter step s' fd = _
  simp only [sessionAfter, calls, if_true]
  exact called_of_act found taken

/-- The connection after it has been closed. -/
theorem Place.closed {session : Session} (quiet : h.server.call step = none) (found : h.sessions fd = some session)
    (reachable : sessionSystem.Reachable (may fd) session) (admits : may fd session .close)
    (isOpen : (h.server.registry.fds fd).isSome) (closed : s'.registry.fds fd = none) (live : session.run.live = true)
    (hosting : s'.Hosting fd { session.run with live := false }) : (h.next step s').Place may fd := by
  have taken : session.act .close = some (.ok { session with run := { session.run with live := false } }) := by
    simp [Session.act, AssemblyRun.act, live, Session.noted, Except.map]
  refine .used _ ?_ (reachable.step admits taken) hosting
  change h.sessionAfter step s' fd = _
  simp only [sessionAfter, quiet, isOpen, closed, and_self, if_true]
  exact called_of_act found taken

end Hosted

section Calls

variable {run run' : AssemblyRun}

theorem act_of_run {session : Session} (acted : session.run.act step = some (.ok run')) :
    session.act step = some (.ok { session.noted step with run := run' }) := by
  rw [Session.act, acted]
  rfl

theorem act_read (live : run.live = true) (armed : run.armed = some .epollIn)
    (returned : run.conn.read results = (conn, some ret)) :
    run.act (.read results) = some (.ok { conn, armed := none, queued := ret, live := ret }) := by
  simp only [AssemblyRun.act, live, armed, and_self, if_true, returned]

theorem act_write (live : run.live = true) (armed : run.armed = some .epollOut)
    (returned : (run.conn.write results).ret = some ret) :
    run.act (.write results) = some (.ok { run with
      conn := (run.conn.write results).conn, armed := armedBy (run.conn.write results).effects, live := ret }) := by
  simp only [AssemblyRun.act, live, armed, and_self, if_true, returned, Option.map_some]

theorem act_httpParse (queued : run.queued = true) (done : run.conn.httpParseTask answer = .ok (conn, effects)) :
    run.act (.httpParse answer) =
      some (.ok { conn, armed := armedBy effects, queued := false, live := run.live }) := by
  simp only [AssemblyRun.act, queued, if_true, done]
  rfl

end Calls

namespace Registry

theorem fds_dropped (r : Registry) (fd : Int) (timer : TimerPtr) : (r.dropped fd timer).fds fd = none :=
  if_pos (List.mem_singleton_self fd)

theorem epoll_dropped (r : Registry) (fd : Int) (timer : TimerPtr) : (r.dropped fd timer).epoll fd = none :=
  if_pos (List.mem_singleton_self fd)

theorem fds_dropped_other (r : Registry) (timer : TimerPtr) {fd other : Int} (apart : other ≠ fd) :
    (r.dropped fd timer).fds other = r.fds other :=
  if_neg (by simpa using apart)

theorem epoll_dropped_other (r : Registry) (timer : TimerPtr) {fd other : Int} (apart : other ≠ fd) :
    (r.dropped fd timer).epoll other = r.epoll other :=
  if_neg (by simpa using apart)

end Registry

section Steps

variable {may : Int → Session → ConnStep → Prop} {h : Hosted} {s' : ServerState} {event : Ready}
  {rest events : List Ready} {answers : Answers} {fd : Int}

namespace Hosted

/-- The kernel delivers what the connections are watched for, and watches them no more. -/
theorem Place.wait (place : h.Place may fd) (reports : h.server.Reports (.wait events)) :
    (h.next (.wait events)
      { h.server with registry := h.server.registry.disarm (events.map Ready.fd), events }).Place may fd := by
  have same : h.sessionAfter (.wait events)
      { h.server with registry := h.server.registry.disarm (events.map Ready.fd), events } fd = h.sessions fd :=
    sessionAfter_spared (by rintro callee call ⟨⟩) rfl
  have none_ (unwatched : h.server.registry.epoll fd = none) :
      (h.server.registry.disarm (events.map Ready.fd)).epoll fd = none := by
    simp only [Registry.disarm, unwatched, Option.map_none, ite_self]
  cases place with
  | unused free fresh closed unwatched idle => exact .unused (same.trans free) fresh closed (none_ unwatched) idle
  | used session found reachable hosting =>
    have armed (event : EpollEvent)
        (watched : (h.server.registry.disarm (events.map Ready.fd)).epoll fd = some (.armed event)) :
        fd ∉ events.map Ready.fd ∧ h.server.registry.epoll fd = some (.armed event) := by
      simp only [Registry.disarm] at watched
      split at watched
      · obtain ⟨_, _, off⟩ := Option.map_eq_some_iff.mp watched
        cases off
      · rename_i apart
        exact ⟨apart, watched⟩
    refine .used session (same.trans found) reachable ⟨hosting.conn, hosting.sockFd, hosting.apart, hosting.live,
      fun closed => none_ (hosting.unwatched closed), fun event watched => hosting.armed event (armed event watched).2,
      fun ready member here => ?_, hosting.owed⟩
    subst here
    refine ⟨?_, fun event watched => (armed event watched).1 (List.mem_map_of_mem member)⟩
    rcases reports.2 ready member with listen | pipe | ⟨watched, before, for_⟩
    · exact absurd listen hosting.apart.1
    · exact absurd pipe.1 hosting.apart.2
    · exact ⟨watched, hosting.armed watched before, for_⟩

/-- What remains of the batch concerns other descriptors. -/
theorem Keeps.behind (keeps : h.Keeps may) (head : h.server.events = event :: rest) :
    ∀ ready ∈ rest, ready.fd ≠ event.fd := by
  have distinct := keeps.attended.distinct
  rw [head, List.map_cons, List.nodup_cons] at distinct
  exact fun ready member same => distinct.1 (same ▸ List.mem_map_of_mem member)

theorem Keeps.accept (keeps : h.Keeps may) (allows : h.Allows may (.event answers))
    (idle : h.server.main = .dispatching) (head : h.server.events = event :: rest)
    (listen : event.fd = h.server.listenFd)
    (done : { h.server with events := rest }.acceptClient answers = .ok s') (fd : Int) :
    (h.next (.event answers) s').Place may fd := by
  have behind (ready : Ready) (member : ready ∈ rest) : ready ∈ h.server.events := by
    rw [head]
    exact List.mem_cons_of_mem _ member
  have calls : h.server.call (.event answers) =
      if 0 ≤ answers.connfd ∧ h.server.registry.httpCnt < maxFd then some (answers.connfd, .init answers.connfd 0)
      else none := by
    simp only [ServerState.call, idle, head, listen, if_true]
  by_cases failed : answers.connfd < 0
  · rw [ServerState.acceptClient, if_pos failed] at done
    cases done
    rw [if_neg fun room => not_le.mpr failed room.1] at calls
    exact (keeps.places fd).spared (by rw [calls]; rintro _ _ ⟨⟩) ⟨rfl, rfl, fun _ => id, id, behind, rfl, rfl, rfl⟩
  obtain ⟨closed, notListen, notPipe⟩ := allows.reports.resolve_left failed
  by_cases full : (h.server.registry.opened answers.connfd).httpCnt ≥ maxFd
  · rw [ServerState.acceptClient, if_neg failed] at done
    dsimp only at done
    rw [if_pos full] at done
    cases done
    rw [if_neg fun room => not_lt.mpr full room.2] at calls
    refine (keeps.places fd).spared (by rw [calls]; rintro _ _ ⟨⟩)
      ⟨rfl, ?_, fun event watched => ?_, fun unwatched => ?_, behind, rfl, rfl, rfl⟩
    · exact congrFun (Registry.refused_fds closed) fd
    · have still : Function.update h.server.registry.epoll answers.connfd none fd = some (.armed event) := watched
      by_cases same : fd = answers.connfd
      · rw [same, Function.update_self] at still
        cases still
      · rwa [Function.update_of_ne same] at still
    · change Function.update h.server.registry.epoll answers.connfd none fd = none
      by_cases same : fd = answers.connfd
      · rw [same, Function.update_self]
      · rwa [Function.update_of_ne same]
  by_cases beyond : answers.connfd ≥ maxFd
  · rw [ServerState.acceptClient, if_neg failed] at done
    dsimp only at done
    rw [if_neg full, if_pos beyond] at done
    cases done
  have room : 0 ≤ answers.connfd ∧ h.server.registry.httpCnt < maxFd := ⟨not_lt.mp failed, not_le.mp full⟩
  obtain ⟨timer, heap, accepted, gains⟩ := ServerState.acceptClient_ok (s := { h.server with events := rest })
    keeps.attended.linked ⟨room.1, not_le.mp beyond⟩ room.2
  cases accepted.symm.trans done
  rw [if_pos room] at calls
  by_cases same : fd = answers.connfd
  · subst same
    have inits : h.server.inits (.event answers) = some answers.connfd := by
      simp only [ServerState.inits, idle, head, listen, if_true, if_pos room]
    refine .used (.start (h.server.https answers.connfd) answers.connfd 0) ?_ (.init ⟨_, _, _, rfl⟩) ⟨?_, rfl,
      ⟨notListen, notPipe⟩, ?_, fun none_ => ?_, fun event watched => ?_, fun ready member here => ?_, ?_⟩
    · change h.sessionAfter _ _ _ = _
      simp only [sessionAfter, calls, if_true]
      rfl
    · exact (Function.update_self answers.connfd _ h.server.https).symm
    · exact (Option.isSome_of_eq_some (Registry.admitted_self ..)).symm
    · cases (Registry.admitted_self ..).symm.trans none_
    · have added : Function.update h.server.registry.epoll answers.connfd _ answers.connfd = some (.armed event) :=
        watched
      rw [Function.update_self] at added
      cases added
      rfl
    · rcases keeps.attended.pending ready (behind ready member) with isListen | isPipe | isOpen
      · exact absurd (here.symm.trans isListen) notListen
      · exact absurd (here.symm.trans isPipe.1) notPipe
      · rw [here, closed] at isOpen
        cases isOpen
    · exact (allows.spares _ inits).le.trans (Nat.zero_le _)
  · refine (keeps.places fd).spared (by rw [calls]; rintro callee call ⟨⟩; exact same) ⟨Function.update_of_ne same ..,
      Function.update_of_ne same .., fun event watched => ?_, fun unwatched => ?_, behind, rfl, rfl, rfl⟩
    · exact (Function.update_of_ne same ..).symm.trans watched
    · exact (Function.update_of_ne same ..).trans unwatched

section Connection

variable (keeps : h.Keeps may) (allows : h.Allows may (.event answers)) (idle : h.server.main = .dispatching)
  (head : h.server.events = event :: rest) (notListen : event.fd ≠ h.server.listenFd)
  (isOpen : (h.server.registry.fds event.fd).isSome)
include keeps head

/-- The other descriptors at an event. -/
theorem Keeps.others (calls : ∀ callee call, h.server.call (.event answers) = some (callee, call) → callee = event.fd)
    (apart : fd ≠ event.fd) (https : s'.https fd = h.server.https fd)
    (fds : s'.registry.fds fd = h.server.registry.fds fd) (epoll : s'.registry.epoll fd = h.server.registry.epoll fd)
    (events : s'.events = rest) (owed : s'.owed fd = h.server.owed fd)
    (sockets : s'.listenFd = h.server.listenFd ∧ s'.pipeFd = h.server.pipeFd) :
    (h.next (.event answers) s').Place may fd := by
  refine (keeps.places fd).spared (fun callee call found => (calls callee call found).symm ▸ apart)
    ⟨https, fds, fun event watched => epoll ▸ watched, fun unwatched => epoll ▸ unwatched,
      fun ready member => ?_, owed,
      sockets⟩
  rw [events] at member
  rw [head]
  exact List.mem_cons_of_mem _ member

/-- The descriptor of the event itself: what is left of the batch concerns others. -/
theorem Keeps.own {run run' : AssemblyRun} (hosting : h.server.Hosting event.fd run)
    (conn : run'.conn = s'.https event.fd)
    (sockFd : run'.conn.sockFd = run.conn.sockFd) (events : s'.events = rest)
    (sockets : s'.listenFd = h.server.listenFd ∧ s'.pipeFd = h.server.pipeFd)
    (live : run'.live = (s'.registry.fds event.fd).isSome)
    (unwatched : s'.registry.fds event.fd = none → s'.registry.epoll event.fd = none)
    (armed : ∀ watch, s'.registry.epoll event.fd = some (.armed watch) → run'.armed = some watch)
    (owed : s'.owed event.fd ≤ if run'.queued then 1 else 0) : s'.Hosting event.fd run' := by
  refine ⟨conn, sockFd.trans hosting.sockFd, ?_, live, unwatched, armed, fun ready member here => ?_, owed⟩
  · rw [sockets.1, sockets.2]
    exact hosting.apart
  · exact absurd here (keeps.behind head ready (events ▸ member))

/-- The descriptor of an event that closes its connection. -/
theorem Keeps.dropped {run run' : AssemblyRun} {r : Registry} {timer : TimerPtr}
    (hosting : h.server.Hosting event.fd run) (conn : run'.conn = s'.https event.fd)
    (sockFd : run'.conn.sockFd = run.conn.sockFd) (events : s'.events = rest)
    (sockets : s'.listenFd = h.server.listenFd ∧ s'.pipeFd = h.server.pipeFd)
    (registry : s'.registry = r.dropped event.fd timer) (live : run'.live = false)
    (owed : s'.owed event.fd ≤ if run'.queued then 1 else 0) : s'.Hosting event.fd run' := by
  have closed : s'.registry.fds event.fd = none := by rw [registry, Registry.fds_dropped]
  have unwatched : s'.registry.epoll event.fd = none := by rw [registry, Registry.epoll_dropped]
  refine keeps.own head hosting conn sockFd events sockets ?_ (fun _ => unwatched) (fun watch on => ?_) owed
  · rw [live, closed]
    rfl
  · cases unwatched.symm.trans on

include idle notListen isOpen

theorem Keeps.hangUp (closes : ∀ fd session, may fd session .close) (hup : event.hup = true)
    (done : { h.server with events := rest }.withRegistry (h.server.registry.hangUp event.fd) = .ok s') (fd : Int) :
    (h.next (.event answers) s').Place may fd := by
  obtain ⟨conn, found⟩ := Option.isSome_iff_exists.mp isOpen
  obtain ⟨timer, leads⟩ := keeps.attended.linked.leads event.fd conn found
  rw [Registry.hangUp_eq leads] at done
  cases done
  have quiet : h.server.call (.event answers) = none := by
    simp only [ServerState.call, idle, head, if_neg notListen, hup, if_true]
  by_cases same : fd = event.fd
  · subst same
    obtain ⟨session, accepted, reachable, hosting, live⟩ := (keeps.places event.fd).of_open isOpen
    exact .closed quiet accepted reachable (closes _ session) isOpen (Registry.fds_dropped ..) live
      (keeps.dropped head hosting hosting.conn rfl rfl ⟨rfl, rfl⟩ rfl rfl hosting.owed)
  · exact keeps.others head (by rw [quiet]; rintro _ _ ⟨⟩) same rfl (Registry.fds_dropped_other _ _ same)
      (Registry.epoll_dropped_other _ _ same) rfl rfl ⟨rfl, rfl⟩

include allows

theorem Keeps.readable (noHup : event.hup = false) (notPipe : ¬ (event.fd = h.server.pipeFd ∧ event.epollIn = true))
    (readable : event.epollIn = true)
    (done : { h.server with events := rest }.readable event.fd answers = some (.ok s')) (fd : Int) :
    (h.next (.event answers) s').Place may fd := by
  have calls : h.server.call (.event answers) = some (event.fd, .read answers.received) := by
    simp only [ServerState.call, idle, head, if_neg notListen, noHup, Bool.false_eq_true, if_false]
    rw [if_neg notPipe, if_pos readable]
  have own (callee : Int) (call : ConnStep) (found : h.server.call (.event answers) = some (callee, call)) :
      callee = event.fd := by
    rw [calls] at found
    exact (Prod.mk.inj (Option.some.inj found)).1.symm
  obtain ⟨number, opened⟩ := Option.isSome_iff_exists.mp isOpen
  obtain ⟨timer, leads⟩ := keeps.attended.linked.leads event.fd number opened
  obtain ⟨session, accepted, reachable, hosting, live⟩ := (keeps.places event.fd).of_open isOpen
  obtain ⟨⟨watched, armed, isIn, _⟩, off⟩ := hosting.reported event (by rw [head]; exact List.mem_cons_self) rfl
  obtain rfl := isIn readable
  have free := hosting.idle (Session.reachable_keeps reachable) armed
  have sockFd := CHttp.read_sockFd (h.server.https event.fd) answers.received
  cases returned : (h.server.https event.fd).read answers.received with
  | mk conn ret =>
    rw [returned] at sockFd
    have taken (ret' : Bool) (same : ret = some ret') := act_of_run (act_read live armed
      (show session.run.conn.read answers.received = (conn, some ret') by rw [hosting.conn, returned, same]))
    have place (ret' : Bool) (same : ret = some ret') (server : ServerState)
        (hosted : server.Hosting event.fd { conn, armed := none, queued := ret', live := ret' }) :
        (h.next (.event answers) server).Place may event.fd :=
      Place.called calls accepted reachable (allows.may _ _ _ calls accepted) (taken ret' same) hosted
    rw [← hosting.conn] at sockFd
    have self : conn = Function.update h.server.https event.fd conn event.fd := by rw [Function.update_self]
    have other (apart : fd ≠ event.fd) : Function.update h.server.https event.fd conn fd = h.server.https fd :=
      Function.update_of_ne apart ..
    simp only [ServerState.readable, returned] at done
    cases ret with
    | none => cases done
    | some ret =>
      cases ret with
      | true =>
        dsimp only at done
        split at done
        · obtain ⟨heap, renewed, _⟩ := ServerState.renewed_ok keeps.attended.linked.placed leads answers.now
          have same := Option.some.inj done
          change ServerState.withRegistry _
            (Except.mapError Fault.memory (h.server.registry.renew event.fd answers.now)) = _
            at same
          rw [renewed] at same
          cases same
          by_cases here : fd = event.fd
          · subst here
            exact place true rfl _ (keeps.own head hosting self sockFd rfl ⟨rfl, rfl⟩
              (live.symm.trans hosting.live) hosting.unwatched (fun watch on => absurd on (off watch))
              (free.le.trans (Nat.zero_le _)))
          · exact keeps.others head own here (other here) rfl rfl rfl rfl ⟨rfl, rfl⟩
        · cases done
          by_cases here : fd = event.fd
          · subst here
            refine place true rfl _ (keeps.own head hosting self sockFd rfl ⟨rfl, rfl⟩
              (live.symm.trans hosting.live) hosting.unwatched (fun watch on => absurd on (off watch)) ?_)
            rw [ServerState.owed, ServerState.appends_self rfl]
            rw [ServerState.owed, ServerState.appends_idle idle] at free
            change h.server.tasks.count event.fd + h.server.runs event.fd + 1 ≤ 1
            omega
          · refine keeps.others head own here (other here) rfl rfl rfl ?_ ⟨rfl, rfl⟩
            rw [ServerState.owed, ServerState.owed, ServerState.appends_idle idle, ServerState.appends_other rfl here]
            rfl
      | false =>
        have same := Option.some.inj done
        change ServerState.withRegistry _ (h.server.registry.readFailed event.fd) = _ at same
        rw [Registry.readFailed_eq leads] at same
        cases same
        by_cases here : fd = event.fd
        · subst here
          exact place false rfl _
            (keeps.dropped head hosting self sockFd rfl ⟨rfl, rfl⟩ rfl rfl (free.le.trans (Nat.zero_le _)))
        · exact keeps.others head own here (other here) (Registry.fds_dropped_other _ _ here)
            (Registry.epoll_dropped_other _ _ here) rfl rfl ⟨rfl, rfl⟩

theorem Keeps.writable (noHup : event.hup = false) (notIn : event.epollIn = false) (writable : event.epollOut = true)
    (done : { h.server with events := rest }.writable event.fd answers = some (.ok s')) (fd : Int) :
    (h.next (.event answers) s').Place may fd := by
  have calls : h.server.call (.event answers) = some (event.fd, .write answers.written) := by
    simp only [ServerState.call, idle, head, if_neg notListen, noHup, notIn, writable, Bool.false_eq_true, and_false,
      if_false, if_true]
  have own (callee : Int) (call : ConnStep) (found : h.server.call (.event answers) = some (callee, call)) :
      callee = event.fd := by
    rw [calls] at found
    exact (Prod.mk.inj (Option.some.inj found)).1.symm
  obtain ⟨number, opened⟩ := Option.isSome_iff_exists.mp isOpen
  obtain ⟨timer, leads⟩ := keeps.attended.linked.leads event.fd number opened
  obtain ⟨session, accepted, reachable, hosting, live⟩ := (keeps.places event.fd).of_open isOpen
  obtain ⟨⟨watched, armed, _, isOut⟩, off⟩ := hosting.reported event (by rw [head]; exact List.mem_cons_self) rfl
  obtain rfl := isOut writable
  have free := hosting.idle (Session.reachable_keeps reachable) armed
  have hands := write_hands (h.server.https event.fd) answers.written
  have atFd : (h.server.https event.fd).sockFd = event.fd := by rw [← hosting.conn, hosting.sockFd]
  have sockFd : ((h.server.https event.fd).write answers.written).conn.sockFd = session.run.conn.sockFd := by
    rw [hands.sockFd, hosting.conn]
  have self : ((h.server.https event.fd).write answers.written).conn = Function.update h.server.https event.fd
      ((h.server.https event.fd).write answers.written).conn event.fd := by rw [Function.update_self]
  have other (apart : fd ≠ event.fd) : Function.update h.server.https event.fd
      ((h.server.https event.fd).write answers.written).conn fd = h.server.https fd :=
    Function.update_of_ne apart ..
  have place (ret : Bool) (returned : ((h.server.https event.fd).write answers.written).ret = some ret)
      (server : ServerState) (hosted : server.Hosting event.fd { session.run with
        conn := ((h.server.https event.fd).write answers.written).conn
        armed := armedBy ((h.server.https event.fd).write answers.written).effects
        live := ret }) : (h.next (.event answers) server).Place may event.fd := by
    rw [← hosting.conn] at returned hosted
    exact Place.called calls accepted reachable (allows.may _ _ _ calls accepted)
      (act_of_run (act_write live armed returned)) hosted
  unfold ServerState.writable at done
  dsimp only at done
  split at done
  · cases done
  · rename_i returned
    obtain ⟨watch, performed⟩ := hands.goesOn returned h.server.registry
    have epoll := epoll_of_own (write_own (h.server.https event.fd) answers.written) h.server.registry
    rw [performed, atFd] at epoll
    have placed : (h.server.registry.modFd (h.server.https event.fd).sockFd watch).timerHeap.Placed :=
      keeps.attended.linked.placed
    obtain ⟨heap, renewed, _⟩ := ServerState.renewed_ok placed leads answers.now
    have same := Option.some.inj done
    change ServerState.withRegistry _ (Except.mapError Fault.memory
      ((((h.server.https event.fd).write answers.written).effects.foldl Registry.perform
        h.server.registry).renew event.fd answers.now)) = _ at same
    rw [performed, renewed] at same
    cases same
    rw [atFd]
    by_cases here : fd = event.fd
    · subst here
      refine place true returned _ (keeps.own head hosting self sockFd rfl ⟨rfl, rfl⟩ (live.symm.trans hosting.live)
        (fun closed => ?_) (fun watch' on => ?_) (free.le.trans (Nat.zero_le _)))
      · cases opened.symm.trans closed
      · have on : (h.server.registry.modFd event.fd watch).epoll event.fd = some (.armed watch') := on
        rw [epoll] at on
        cases last : armedBy ((h.server.https event.fd).write answers.written).effects with
        | none =>
          rw [last] at on
          exact absurd on (off watch')
        | some event =>
          rw [last] at on
          obtain ⟨_, _, same⟩ := Option.map_eq_some_iff.mp on
          cases same
          rfl
    · exact keeps.others head own here (other here) rfl (Function.update_of_ne here ..) rfl rfl ⟨rfl, rfl⟩
  · rename_i returned
    have same := Option.some.inj done
    change ServerState.withRegistry _
      ((((h.server.https event.fd).write answers.written).effects.foldl Registry.perform h.server.registry).writeFailed
        event.fd) = _ at same
    have ends (r : Registry) (watched : r = h.server.registry ∨ r = h.server.registry.modFd event.fd .epollIn)
        (closes : r.writeFailed event.fd = .ok (r.dropped event.fd timer))
        (performed :
          ((h.server.https event.fd).write answers.written).effects.foldl Registry.perform h.server.registry = r) :
        (h.next (.event answers) s').Place may fd := by
      rw [performed, closes] at same
      cases same
      by_cases here : fd = event.fd
      · subst here
        exact place false returned _
          (keeps.dropped head hosting self sockFd rfl ⟨rfl, rfl⟩ rfl rfl (free.le.trans (Nat.zero_le _)))
      · refine keeps.others head own here (other here) ((Registry.fds_dropped_other _ _ here).trans ?_)
          ((Registry.epoll_dropped_other _ _ here).trans ?_) rfl rfl ⟨rfl, rfl⟩
        · rcases watched with rfl | rfl <;> rfl
        · rcases watched with rfl | rfl
          · rfl
          · exact Function.update_of_ne here ..
    rcases hands.gives returned h.server.registry with performed | performed
    · exact ends _ (.inl rfl) (Registry.writeFailed_eq leads) performed
    · rw [atFd] at performed
      exact ends _ (.inr rfl)
        (Registry.writeFailed_eq (r := h.server.registry.modFd event.fd .epollIn) leads) performed

end Connection

theorem Keeps.handle (keeps : h.Keeps may) (closes : ∀ fd session, may fd session .close)
    (allows : h.Allows may (.event answers)) (done : h.server.act (.event answers) = some (.ok s')) (fd : Int) :
    (h.next (.event answers) s').Place may fd := by
  simp only [ServerState.act] at done
  split at done
  case h_2 => cases done
  rename_i event rest idle head
  have behind (ready : Ready) (member : ready ∈ rest) : ready ∈ h.server.events := by
    rw [head]
    exact List.mem_cons_of_mem _ member
  unfold ServerState.dispatch at done
  by_cases listen : event.fd = h.server.listenFd
  · rw [if_pos listen] at done
    exact keeps.accept allows idle head listen (Option.some.inj done) fd
  rw [if_neg listen] at done
  have connection (other : ¬ (event.fd = h.server.pipeFd ∧ event.hup = false ∧ event.epollIn = true)) :
      (h.server.registry.fds event.fd).isSome :=
    ((keeps.attended.pending event (by rw [head]; exact List.mem_cons_self)).resolve_left listen).resolve_left other
  by_cases hup : event.hup = true
  · have isOpen := connection (by rw [hup]; exact fun pipe => Bool.noConfusion pipe.2.1)
    rw [if_pos hup] at done
    exact keeps.hangUp idle head listen isOpen closes hup (Option.some.inj done) fd
  have noHup : event.hup = false := Bool.eq_false_of_not_eq_true hup
  rw [if_neg hup] at done
  by_cases pipe : event.fd = h.server.pipeFd ∧ event.epollIn = true
  · rw [if_pos pipe] at done
    cases done
    have quiet : h.server.call (.event answers) = none := by
      simp only [ServerState.call, idle, head, if_neg listen, noHup, Bool.false_eq_true, if_false]
      rw [if_pos pipe]
    exact (keeps.places fd).spared (by rw [quiet]; rintro _ _ ⟨⟩) ⟨rfl, rfl, fun _ => id, id, behind, rfl, rfl, rfl⟩
  have isOpen := connection fun is => pipe ⟨is.1, is.2.2⟩
  rw [if_neg pipe] at done
  by_cases isIn : event.epollIn = true
  · rw [if_pos isIn] at done
    exact keeps.readable allows idle head listen isOpen noHup pipe isIn done fd
  have notIn : event.epollIn = false := Bool.eq_false_of_not_eq_true isIn
  rw [if_neg isIn] at done
  by_cases isOut : event.epollOut = true
  · rw [if_pos isOut] at done
    exact keeps.writable allows idle head listen isOpen noHup notIn isOut done fd
  · rw [if_neg isOut] at done
    cases done
    have quiet : h.server.call (.event answers) = none := by
      simp only [ServerState.call, idle, head, if_neg listen, noHup, notIn, isOut, Bool.false_eq_true,
        and_false, if_false]
    exact (keeps.places fd).spared (by rw [quiet]; rintro _ _ ⟨⟩) ⟨rfl, rfl, fun _ => id, id, behind, rfl, rfl, rfl⟩

end Hosted

namespace ServerState

variable {s : ServerState}

/-- The holder of the lock gives the object back, which was one of the tasks. -/
theorem runs_finish (exclusive : s.Exclusive) (running : s.workers worker = .running task) (conn : CHttp)
    (r : Registry)
    (fd : Int) :
    { s with
      https := Function.update s.https task conn
      registry := r
      workers := Function.update s.workers worker .returning }.runs fd = 0 := by
  have locked := exclusive worker (by rw [running]; exact Worker.noConfusion)
  refine runs_none ?_ fd
  simp only [current, locked, Function.update_self]

theorem owed_take (queued : s.tasks = task :: later) (free : s.lock = none) :
    { s with
      tasks := later, lock := some worker, workers := Function.update s.workers worker (.running task) }.owed fd =
      s.owed fd := by
  have running : { s with
      tasks := later, lock := some worker, workers := Function.update s.workers worker (.running task) }.current =
        some task := current_running rfl (Function.update_self ..)
  rw [owed, owed, runs_none (current_waiting free), queued]
  change later.count fd + _ + s.appends fd = _
  by_cases same : fd = task
  · subst same
    rw [runs_self running, List.count_cons_self]
  · rw [runs_other running same, List.count_cons_of_ne (Ne.symm same)]

theorem owed_append (busy : s.main = .appending callee) (r : Registry) :
    { s with tasks := s.tasks ++ [callee], main := .dispatching, registry := r }.owed fd = s.owed fd := by
  rw [owed, owed, appends_idle rfl]
  change (s.tasks ++ [callee]).count fd + s.runs fd + 0 = _
  by_cases same : fd = callee
  · subst same
    rw [appends_self busy, List.count_append, List.count_singleton_self]
    omega
  · rw [appends_other busy same, List.count_append, List.count_singleton, if_neg (by simpa using Ne.symm same)]
    omega

theorem owed_unlock (exclusive : s.Exclusive) (returning : s.workers worker = .returning) :
    { s with lock := none, workers := Function.update s.workers worker .waiting }.owed fd = s.owed fd := by
  have locked := exclusive worker (by rw [returning]; exact Worker.noConfusion)
  have none_ : s.current = none := by simp only [current, locked, returning]
  rw [owed, owed, runs_none none_, runs_none (current_waiting rfl)]
  rfl

end ServerState

namespace Hosted

/-- A worker makes the call that the connection waits for. -/
theorem Keeps.finish (keeps : h.Keeps may) (allows : h.Allows may (.finish worker answer))
    (running : h.server.workers worker = .running task)
    (done : (h.server.https task).httpParseTask answer = .ok (conn, effects)) (fd : Int) :
    (h.next (.finish worker answer) { h.server with
      https := Function.update h.server.https task conn
      registry := effects.foldl Registry.perform h.server.registry
      workers := Function.update h.server.workers worker .returning }).Place may fd := by
  have calls : h.server.call (.finish worker answer) = some (task, .httpParse answer) := by
    simp only [ServerState.call, running]
  have current := ServerState.current_running
    (keeps.exclusive worker (by rw [running]; exact Worker.noConfusion)) running
  have runs := ServerState.runs_self current
  have owes : 0 < h.server.owed task := by
    rw [ServerState.owed]
    omega
  obtain ⟨session, found, reachable, hosting⟩ := (keeps.places task).of_owed owes
  have keepsRun := Session.reachable_keeps reachable
  obtain ⟨queued, _, off, away⟩ := hosting.busy keepsRun owes
  have atFd : (h.server.https task).sockFd = task := by rw [← hosting.conn, hosting.sockFd]
  have parsed : session.run.conn.httpParseTask answer = .ok (conn, effects) := by rw [hosting.conn, done]
  have stays := keepsRun.assembles.stays queued answer conn effects parsed
  -- The registry after the effects: its own watch is the one asked for, and nothing else has changed.
  obtain ⟨sockFd, fds, own, others⟩ : conn.sockFd = task ∧
      (effects.foldl Registry.perform h.server.registry).fds = h.server.registry.fds ∧
      ((h.server.registry.epoll task = none → (effects.foldl Registry.perform h.server.registry).epoll task = none) ∧
        ∀ watch, (effects.foldl Registry.perform h.server.registry).epoll task = some (.armed watch) →
          armedBy effects = some watch) ∧
      ∀ other, other ≠ task → (effects.foldl Registry.perform h.server.registry).epoll other =
        h.server.registry.epoll other := by
    rcases httpParseTask_hands done with ⟨event, same, rfl⟩ | ⟨dead, rfl, same⟩ | ⟨_, rfl⟩
    · rw [atFd]
      refine ⟨same.trans atFd, rfl, ⟨fun none_ => ?_, fun watch on => ?_⟩,
        fun other apart => Function.update_of_ne apart ..⟩
      · simp only [List.foldl_cons, List.foldl_nil, Registry.perform, Registry.modFd, Function.update_self, none_,
          Option.map_none]
      · simp only [List.foldl_cons, List.foldl_nil, Registry.perform, Registry.modFd, Function.update_self] at on
        obtain ⟨_, _, on⟩ := Option.map_eq_some_iff.mp on
        cases on
        rfl
    · exact ⟨same.trans (dead.symm.trans atFd), rfl, ⟨id, fun watch on => absurd on (off watch)⟩, fun _ _ => rfl⟩
    · cases stays
  have idle := ServerState.runs_finish keeps.exclusive running conn
    (effects.foldl Registry.perform h.server.registry)
  by_cases here : fd = task
  · subst here
    refine Place.called calls found reachable (allows.may _ _ _ calls found) (act_of_run (act_httpParse queued parsed))
      ⟨?_, sockFd, hosting.apart, ?_, fun closed => own.1 (hosting.unwatched (fds ▸ closed)), own.2,
        fun ready member same => absurd same (away ready member), ?_⟩
    · show conn = Function.update h.server.https fd conn fd
      rw [Function.update_self]
    · change session.run.live = ((effects.foldl Registry.perform h.server.registry).fds fd).isSome
      rw [fds]
      exact hosting.live
    · have one := hosting.owed
      rw [if_pos queued, ServerState.owed, runs] at one
      rw [ServerState.owed, idle fd]
      change h.server.tasks.count fd + 0 + h.server.appends fd ≤ 0
      omega
  · refine (keeps.places fd).spared (by rw [calls]; rintro callee call ⟨⟩; exact here) ⟨Function.update_of_ne here ..,
      congrFun fds fd, fun event watched => (others fd here).symm.trans watched,
      fun unwatched => (others fd here).trans unwatched, fun _ => id, ?_, rfl, rfl⟩
    rw [ServerState.owed, ServerState.owed, idle fd, ServerState.runs_other current here]
    rfl

/-- The connections whose time is over are closed. -/
theorem Keeps.timer (keeps : h.Keeps may) (closes : ∀ fd session, may fd session .close)
    (handled : h.server.events = []) (done : h.server.registry.tick now = .ok r) (fd : Int) :
    (h.next (.timer now) { h.server with timeout := false, registry := r }).Place may fd := by
  obtain ⟨popped, heap, ticked, pops⟩ := keeps.attended.ticked now
  obtain rfl := Except.ok.inj (done.symm.trans ticked)
  by_cases gone : fd ∈ h.server.registry.timerHeap.called popped
  · have isOpen := Registry.called_open keeps.attended.linked keeps.attended.exact_ pops fd gone
    have closed : (h.server.registry.ticked popped heap now).fds fd = none := if_pos gone
    have unwatched : (h.server.registry.ticked popped heap now).epoll fd = none := if_pos gone
    obtain ⟨session, found, reachable, hosting, live⟩ := (keeps.places fd).of_open isOpen
    refine .closed rfl found reachable (closes _ session) isOpen closed live ⟨hosting.conn, hosting.sockFd,
      hosting.apart,
      ?_, fun _ => unwatched, fun watch on => ?_, fun ready member => ?_, hosting.owed⟩
    · exact (congrArg Option.isSome closed).symm
    · cases unwatched.symm.trans on
    · have none_ : ready ∈ h.server.events := member
      rw [handled] at none_
      cases none_
  · have epoll : (h.server.registry.ticked popped heap now).epoll fd = h.server.registry.epoll fd := if_neg gone
    exact (keeps.places fd).spared (by rintro callee call ⟨⟩) ⟨rfl, if_neg gone, fun event watched => epoll ▸ watched,
      fun unwatched => epoll.trans unwatched, fun _ => id, rfl, rfl, rfl⟩

/-- What is watched is open. -/
theorem Place.watched (place : h.Place may fd) (watched : h.server.registry.epoll fd = some watch) :
    (h.server.registry.fds fd).isSome := by
  by_contra closed
  have none_ := Option.not_isSome_iff_eq_none.mp closed
  cases place with
  | unused _ _ _ unwatched => cases unwatched.symm.trans watched
  | used session found reachable hosting => cases (hosting.unwatched none_).symm.trans watched

/-- No worker closes a connection: what `HttpParse` writes of a response fits the buffer. -/
theorem Keeps.admissible (keeps : h.Keeps may) (allows : h.Allows may step) : h.server.Admissible step := by
  refine ⟨?_, ?_⟩
  · cases step with
    | wait events =>
      refine ⟨allows.reports.1, fun event member => ?_⟩
      rcases allows.reports.2 event member with listen | pipe | ⟨watched, armed, _⟩
      · exact .inl listen
      · exact .inr (.inl pipe)
      · exact .inr (.inr ((keeps.places event.fd).watched armed))
    | event answers => exact allows.reports
    | append | timer | take | finish | unlock => trivial
  · rintro ⟨worker, answer, task, conn, effects, fd, rfl, running, done, removes⟩
    have runs := ServerState.runs_self
      (ServerState.current_running (keeps.exclusive worker (by rw [running]; exact Worker.noConfusion)) running)
    have owes : 0 < h.server.owed task := by
      rw [ServerState.owed]
      omega
    obtain ⟨session, _, reachable, hosting⟩ := (keeps.places task).of_owed owes
    have keepsRun := Session.reachable_keeps reachable
    rw [← hosting.conn] at done
    have stays := keepsRun.assembles.stays (hosting.busy keepsRun owes).1 answer conn effects done
    rw [List.any_eq_false] at stays
    exact stays _ removes rfl

theorem Keeps.next (keeps : h.Keeps may) (closes : ∀ fd session, may fd session .close) (allows : h.Allows may step)
    (done : h.server.act step = some (.ok s')) : (h.next step s').Keeps may := by
  have admissible := keeps.admissible allows
  have next := keeps.attended.act admissible done
  refine ⟨keeps.attended.next admissible next, keeps.exclusive.next done, fun fd => ?_⟩
  cases step with
  | wait events =>
    cases next
    exact (keeps.places fd).wait allows.reports
  | event answers => exact keeps.handle closes allows done fd
  | append now =>
    cases next with
    | append busy free isOpen leads renews =>
      exact (keeps.places fd).spared (by rintro callee call ⟨⟩)
        ⟨rfl, rfl, fun _ => id, id, fun _ => id, ServerState.owed_append busy _, rfl, rfl⟩
  | timer now =>
    cases next with
    | timer idle handled ticked => exact keeps.timer closes handled ticked fd
  | take worker =>
    cases next with
    | take queued free waiting =>
      exact (keeps.places fd).spared (by rintro callee call ⟨⟩)
        ⟨rfl, rfl, fun _ => id, id, fun _ => id, ServerState.owed_take queued free, rfl, rfl⟩
  | finish worker answer =>
    cases next with
    | finish running parsed => exact keeps.finish allows running parsed fd
  | unlock worker =>
    cases next with
    | unlock returning =>
      exact (keeps.places fd).spared (by rintro callee call ⟨⟩)
        ⟨rfl, rfl, fun _ => id, id, fun _ => id, ServerState.owed_unlock keeps.exclusive returning, rfl, rfl⟩

theorem of_act {h' : Hosted} (taken : h.act step = some (.ok h')) :
    ∃ s', h.server.act step = some (.ok s') ∧ h' = h.next step s' := by
  obtain ⟨outcome, acted, same⟩ := Option.map_eq_some_iff.mp taken
  cases outcome with
  | error fault => cases same
  | ok s' =>
    cases same
    exact ⟨s', acted, rfl⟩

theorem reachable_keeps (closes : ∀ fd session, may fd session .close)
    (reachable : hostedSystem.Reachable (Allows may) h) : h.Keeps may := by
  refine reachable.invariant (Keeps may) ?_ ?_
  · rintro h ⟨s, ⟨listenFd, pipeFd, capacity, now, positive, rfl⟩, rfl⟩
    exact ⟨ServerState.start_attended listenFd pipeFd now positive, fun _ busy => absurd rfl busy,
      fun fd => .unused rfl rfl rfl rfl rfl⟩
  · intro h step h' keeps allows taken
    obtain ⟨s', done, rfl⟩ := of_act taken
    exact keeps.next closes allows done

/-- An object that no connection has been accepted for is as it was made, and no task leads to it. Every other one
is in the state of the connection that was accepted last. -/
structure Hosts (may : Int → Session → ConnStep → Prop) (h : Hosted) : Prop where
  untouched : ∀ fd, h.sessions fd = none →
    h.server.https fd = default ∧ h.server.registry.fds fd = none ∧ h.server.owed fd = 0
  hosted : ∀ fd session, h.sessions fd = some session →
    sessionSystem.Reachable (may fd) session ∧ h.server.Hosting fd session.run

theorem Keeps.hosts (keeps : h.Keeps may) : h.Hosts may := by
  refine ⟨fun fd none_ => ?_, fun fd session found => ?_⟩
  · cases keeps.places fd with
    | unused _ fresh closed _ idle => exact ⟨fresh, closed, idle⟩
    | used session found => cases none_.symm.trans found
  · cases keeps.places fd with
    | unused none_ => cases none_.symm.trans found
    | used other found' reachable hosting =>
      cases found'.symm.trans found
      exact ⟨reachable, hosting⟩

end Hosted

end Steps

/-- The checks of `Reports`. -/
def ServerState.reports? (s : ServerState) : ServerStep → Bool
  | .wait events => decide (events.map Ready.fd).Nodup && events.all fun event =>
      event.fd == s.listenFd || event.fd == s.pipeFd && !event.hup && event.epollIn ||
        match s.registry.epoll event.fd with
        | some (.armed watched) => (!event.epollIn || watched == .epollIn) && (!event.epollOut || watched == .epollOut)
        | _ => false
  | .event answers => s.delivers? (.event answers)
  | _ => true

theorem ServerState.reports?_sound {s : ServerState} (may : s.reports? step = true) : s.Reports step := by
  cases step with
  | wait events =>
    simp only [reports?, Bool.and_eq_true, decide_eq_true_eq, List.all_eq_true] at may
    refine ⟨may.1, fun event member => ?_⟩
    have check := may.2 event member
    simp only [Bool.or_eq_true, Bool.and_eq_true, beq_iff_eq, Bool.not_eq_true'] at check
    rcases check with (listen | ⟨⟨pipe, noHup⟩, isIn⟩) | watched
    · exact .inl listen
    · exact .inr (.inl ⟨pipe, noHup, isIn⟩)
    · split at watched
      · rename_i watch armed
        simp only [Bool.and_eq_true, Bool.or_eq_true, Bool.not_eq_true', beq_iff_eq] at watched
        refine .inr (.inr ⟨watch, armed, fun isIn => ?_, fun isOut => ?_⟩)
        · exact watched.1.resolve_left (by simp [isIn])
        · exact watched.2.resolve_left (by simp [isOut])
      · cases watched
  | event answers =>
    have delivers : s.Delivers (.event answers) := delivers?_sound may
    exact delivers
  | append | timer | take | finish | unlock => trivial

def Hosted.allows? (may? : Int → Session → ConnStep → Bool) (h : Hosted) (step : ServerStep) : Bool :=
  h.server.reports? step && ((h.server.inits step).all fun fd => h.server.owed fd == 0) &&
    ((h.server.call step).all fun (fd, call) => (h.sessions fd).all fun session => may? fd session call)

theorem Hosted.allows?_sound {may : Int → Session → ConnStep → Prop} {may? : Int → Session → ConnStep → Bool}
    {h : Hosted}
    (sound : ∀ fd session call, may? fd session call = true → may fd session call) (ok : h.allows? may? step = true) :
    h.Allows may step := by
  simp only [allows?, Bool.and_eq_true] at ok
  refine ⟨ServerState.reports?_sound ok.1.1, fun fd inits => ?_, fun fd call session calls found => ?_⟩
  · have free := ok.1.2
    rw [inits, Option.all_some, beq_iff_eq] at free
    exact free
  · have checked := ok.2
    rw [calls, Option.all_some] at checked
    simp only [found, Option.all_some] at checked
    exact sound fd session call checked

/-- While no descriptor is reused before the tasks for it are done, every run of the server is, for each of its
connections, a run of that connection by itself. -/
theorem hosts_of_reachable {h : Hosted} {may : Int → Session → ConnStep → Prop}
    (closes : ∀ fd session, may fd session .close) (reachable : hostedSystem.Reachable (Hosted.Allows may) h) :
    h.Hosts may :=
  (Hosted.reachable_keeps closes reachable).hosts

/-- Two clients ask for a file of 100 bytes. The request of the first comes in three pieces, and it takes the response
in two; the second is answered in between, and goes away. -/
def bothClients : List ServerStep :=
  [.wait [⟨3, false, true, false⟩], .event ⟨10, [], [], [], 0⟩, .wait [⟨3, false, true, false⟩],
    .event ⟨11, [], [], [], 0⟩, .wait [⟨10, false, true, false⟩, ⟨11, false, true, false⟩],
    .event ⟨-1, [.received (ascii "GET ")], [], [], 1⟩, .append 1,
    .event ⟨-1, [.received (ascii "GET / HTTP/1.1\r\n\r\n")], [], [], 1⟩, .append 1, .take 0,
      .finish 0 ⟨none, .null, []⟩,
    .unlock 0, .wait [⟨10, false, true, false⟩], .event ⟨-1, [.received (ascii "/ HTTP/1.1\r\n")], [], [], 2⟩, .take 1,
    .finish 1 hundredBytes, .unlock 1, .append 2, .take 0, .finish 0 ⟨none, .null, []⟩, .unlock 0,
    .wait [⟨11, true, false, true⟩, ⟨10, false, true, false⟩], .event ⟨-1, [], [], [], 3⟩,
    .event ⟨-1, [.received (ascii "\r\n")], [], [], 3⟩, .append 3, .take 2, .finish 2 hundredBytes, .unlock 2,
    .wait [⟨10, false, false, true⟩], .event ⟨-1, [], [⟨60, .other⟩, ⟨-1, .eagain⟩], [], 4⟩,
    .wait [⟨10, false, false, true⟩], .event ⟨-1, [], [⟨121, .other⟩], [], 5⟩]

theorem bothClients_hosts : ∃ h : Hosted, (h.sessions 10).isSome ∧ (h.sessions 11).isSome ∧
    h.Hosts fun _ session call => session.Fair call := by
  have checked : ((System.Reachable.follow Hosted.act (Hosted.allows? fun _ session call => session.fair? call)
      ⟨.start 3 5 1000 0, fun _ => none⟩ bothClients).any fun h =>
        (h.sessions 10).isSome && (h.sessions 11).isSome) = true := by decide +kernel
  obtain ⟨h, followed, state⟩ := (Option.any_eq_true ..).mp checked
  rw [Bool.and_eq_true] at state
  have start : hostedSystem.Reachable (Hosted.Allows fun _ session call => session.Fair call)
      ⟨.start 3 5 1000 0, fun _ => none⟩ := .init ⟨_, ⟨3, 5, 1000, 0, by decide, rfl⟩, rfl⟩
  have reachable := System.Reachable.followed start
    (fun _ _ _ => Hosted.allows?_sound fun _ _ _ => Session.fair?_sound) (fun _ _ _ => id) followed
  exact ⟨h, state.1, state.2, hosts_of_reachable (fun _ _ => trivial) reachable⟩

/-- Whatever else the server does, and however its other clients behave, a client that keeps whole tokens together is
served as if it were alone. -/
theorem serves_of_hosted {h : Hosted} {fd : Int} {session : Session}
    (reachable : hostedSystem.Reachable (Hosted.Allows fun other session call => other = fd → session.Orderly call) h)
    (connected : h.sessions fd = some session) (contents : FileAddr → Bytes) :
    session.Speaks contents ∧ ∀ text : RequestText, text.method.bytes = ascii "GET" → text.Bodiless →
      session.heard <+: text.render → session.Serves text contents := by
  have hosts := (Hosted.reachable_keeps (fun _ _ _ => ⟨trivial, trivial⟩) reachable).hosts
  have alone := (hosts.hosted fd session connected).1.mono fun _ _ orderly => orderly rfl
  have speaks : session.Speaks contents :=
    (Session.reachable_stage (alone.mono fun _ _ orderly => orderly.1)).2.speaks
  exact ⟨speaks, fun text get bodiless said => (Session.reachable_progress get bodiless alone said).serves speaks⟩

theorem bothClients_serves : ∃ (h : Hosted) (session : Session), h.sessions 10 = some session ∧
    session.heard = plainGet.render ∧ session.counts = [60, 121] ∧ (h.sessions 11).isSome ∧
    session.Serves plainGet fun _ => List.replicate 100 65 := by
  have checked : ((System.Reachable.follow Hosted.act
      (Hosted.allows? fun other session call => other != 10 || session.orderly? call)
      ⟨.start 3 5 1000 0, fun _ => none⟩ bothClients).any fun h => (h.sessions 11).isSome &&
        (h.sessions 10).any fun session => session.heard == plainGet.render && session.counts == [60, 121]) =
          true := by
    decide +kernel
  obtain ⟨h, followed, state⟩ := (Option.any_eq_true ..).mp checked
  rw [Bool.and_eq_true] at state
  obtain ⟨session, connected, done⟩ := (Option.any_eq_true ..).mp state.2
  rw [Bool.and_eq_true, beq_iff_eq, beq_iff_eq] at done
  have orderly (other : Int) (session : Session) (call : ConnStep)
      (may : (other != 10 || session.orderly? call) = true) (same : other = 10) : session.Orderly call := by
    rw [same, bne_self_eq_false, Bool.false_or] at may
    exact Session.orderly?_sound may
  have start : hostedSystem.Reachable (Hosted.Allows fun other session call => other = 10 → session.Orderly call)
      ⟨.start 3 5 1000 0, fun _ => none⟩ := .init ⟨_, ⟨3, 5, 1000, 0, by decide, rfl⟩, rfl⟩
  have reachable := System.Reachable.followed start (fun _ _ _ => Hosted.allows?_sound orderly)
    (fun _ _ _ => id) followed
  have bodiless : plainGet.Bodiless := rfl
  have said : session.heard <+: plainGet.render := by rw [done.1]
  exact ⟨h, session, connected, done.1, done.2, state.1,
    (serves_of_hosted reachable connected _).2 plainGet rfl bodiless said⟩

end WSlyh.Server
