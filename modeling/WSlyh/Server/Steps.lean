import WSlyh.Server.Effects
import WSlyh.Server.Loop
import WSlyh.Server.Timekeeping

/-! All that a step of the server can do. -/

namespace WSlyh.Server

open Http Timer

/-- An event on the listening socket, a signal, or an event on an open connection. -/
def ServerState.Expected (s : ServerState) (event : Ready) : Prop :=
  event.fd = s.listenFd ∨ event.fd = s.pipeFd ∧ event.hup = false ∧ event.epollIn = true ∨
    (s.registry.fds event.fd).isSome

/-- `accept` fails, or returns a descriptor that was not in use. -/
def ServerState.Fresh (s : ServerState) (connfd : Int) : Prop :=
  connfd < 0 ∨ s.registry.fds connfd = none ∧ connfd ≠ s.listenFd ∧ connfd ≠ s.pipeFd

/-- The outcomes of a step, when the event at hand is one that can be expected. -/
inductive ServerState.Next (s : ServerState) : ServerStep → Except Fault ServerState → Prop
  | wait (idle : s.main = .dispatching) (handled : s.events = []) (events : List Ready) :
    s.Next (.wait events) (.ok { s with registry := s.registry.disarm (events.map Ready.fd), events })
  | ignored (idle : s.main = .dispatching) (head : s.events = event :: rest)
    (notListen : event.fd ≠ s.listenFd) (noHup : event.hup = false)
    (noIn : event.epollIn = false) (noOut : event.epollOut = false) :
    s.Next (.event answers) (.ok { s with events := rest })
  | signals (idle : s.main = .dispatching) (head : s.events = event :: rest) (pipe : event.fd = s.pipeFd) :
    s.Next (.event answers) (.ok ({ s with events := rest }.readSignals answers))
  | acceptFails (idle : s.main = .dispatching) (head : s.events = event :: rest) (listen : event.fd = s.listenFd) :
    s.Next (.event answers) (.ok { s with events := rest })
  | refuse (idle : s.main = .dispatching) (head : s.events = event :: rest) (listen : event.fd = s.listenFd)
    (closed : s.registry.fds answers.connfd = none) :
    s.Next (.event answers) (.ok { s with
      events := rest, registry := (s.registry.opened answers.connfd).close answers.connfd })
  | outOfBounds (idle : s.main = .dispatching) (head : s.events = event :: rest) :
    s.Next (.event answers) (.error (.memory .outOfBounds))
  | accept (idle : s.main = .dispatching) (head : s.events = event :: rest) (listen : event.fd = s.listenFd)
    (closed : s.registry.fds answers.connfd = none) (notListen : answers.connfd ≠ s.listenFd)
    (notPipe : answers.connfd ≠ s.pipeFd) (inRange : 0 ≤ answers.connfd ∧ answers.connfd < maxFd)
    (gains : Gains s.registry.timerHeap timer answers.connfd (answers.now + 3 * timeslot) heap) :
    s.Next (.event answers) (.ok { s with
      events := rest
      https := Function.update s.https answers.connfd ((s.https answers.connfd).init answers.connfd 0).1
      registry := s.registry.admitted answers.connfd timer heap answers.now })
  | drop (idle : s.main = .dispatching) (head : s.events = event :: rest) (notListen : event.fd ≠ s.listenFd)
    (isOpen : s.registry.fds event.fd = some conn)
    (leads : (s.registry.clientDatas event.fd).Leads s.registry.timerHeap event.fd timer)
    (watched : r = s.registry ∨ r = s.registry.modFd (s.https event.fd).sockFd .epollIn) (http : CHttp) :
    s.Next (.event answers) (.ok { s with
      events := rest, https := Function.update s.https event.fd http, registry := r.dropped event.fd timer })
  | refuseTask (idle : s.main = .dispatching) (head : s.events = event :: rest) (notListen : event.fd ≠ s.listenFd)
    (isOpen : s.registry.fds event.fd = some conn)
    (leads : (s.registry.clientDatas event.fd).Leads s.registry.timerHeap event.fd timer)
    (noHup : event.hup = false) (readable : event.epollIn = true)
    (read : (s.https event.fd).read answers.received = (http, some true)) (full : s.tasks.length ≥ taskNum)
    (renews : Renews s.registry.timerHeap timer (answers.now + 3 * timeslot) heap) :
    s.Next (.event answers) (.ok { s with
      events := rest
      https := Function.update s.https event.fd http
      registry := s.registry.renewed event.fd heap answers.now })
  | enterAppend (idle : s.main = .dispatching) (head : s.events = event :: rest) (notListen : event.fd ≠ s.listenFd)
    (isOpen : s.registry.fds event.fd = some conn)
    (read : (s.https event.fd).read answers.received = (http, some true)) (room : ¬ s.tasks.length ≥ taskNum) :
    s.Next (.event answers) (.ok { s with
      events := rest, https := Function.update s.https event.fd http, main := .appending event.fd })
  | write (idle : s.main = .dispatching) (head : s.events = event :: rest) (notListen : event.fd ≠ s.listenFd)
    (isOpen : s.registry.fds event.fd = some conn)
    (leads : (s.registry.clientDatas event.fd).Leads s.registry.timerHeap event.fd timer)
    (sockFd : http.sockFd = (s.https event.fd).sockFd) (watch : EpollEvent)
    (renews : Renews s.registry.timerHeap timer (answers.now + 3 * timeslot) heap) :
    s.Next (.event answers) (.ok { s with
      events := rest
      https := Function.update s.https event.fd http
      registry := (s.registry.modFd (s.https event.fd).sockFd watch).renewed event.fd heap answers.now })
  | append (appending : s.main = .appending fd) (free : s.lock = none) (isOpen : s.registry.fds fd = some conn)
    (leads : (s.registry.clientDatas fd).Leads s.registry.timerHeap fd timer)
    (renews : Renews s.registry.timerHeap timer (now + 3 * timeslot) heap) :
    s.Next (.append now) (.ok { s with
      tasks := s.tasks ++ [fd], main := .dispatching, registry := s.registry.renewed fd heap now })
  | timer (idle : s.main = .dispatching) (handled : s.events = []) (done : s.registry.tick now = .ok r) :
    s.Next (.timer now) (.ok { s with timeout := false, registry := r })
  | timerFault (failed : s.registry.tick now = .error fault) : s.Next (.timer now) (.error (.memory fault))
  | take (queued : s.tasks = task :: later) (free : s.lock = none) (waiting : s.workers worker = .waiting) :
    s.Next (.take worker) (.ok { s with
      tasks := later, lock := some worker, workers := Function.update s.workers worker (.running task) })
  | finish (running : s.workers worker = .running task)
    (done : (s.https task).httpParseTask answer = .ok (http, effects)) :
    s.Next (.finish worker answer) (.ok { s with
      https := Function.update s.https task http
      registry := effects.foldl Registry.perform s.registry
      workers := Function.update s.workers worker .returning })
  | terminated (running : s.workers worker = .running task)
    (failed : (s.https task).httpParseTask answer = .error exception) :
    s.Next (.finish worker answer) (.error (.terminated exception))
  | unlock (returning : s.workers worker = .returning) :
    s.Next (.unlock worker) (.ok { s with
      lock := none, workers := Function.update s.workers worker .waiting })

namespace ServerState

variable {s : ServerState}

/-- A connection for which there is room gets its timer. -/
theorem acceptClient_ok (linked : s.registry.Linked) (inRange : 0 ≤ answers.connfd ∧ answers.connfd < maxFd)
    (room : s.registry.httpCnt < maxFd) :
    ∃ timer heap, s.acceptClient answers = .ok { s with
        https := Function.update s.https answers.connfd ((s.https answers.connfd).init answers.connfd 0).1
        registry := s.registry.admitted answers.connfd timer heap answers.now } ∧
      Gains s.registry.timerHeap timer answers.connfd (answers.now + 3 * timeslot) heap := by
  obtain ⟨timer, heap, registered, gains⟩ := Registry.register_spec linked.placed answers.connfd answers.now
  refine ⟨timer, heap, ?_, gains⟩
  have done : ((((s.registry.opened answers.connfd).addFd answers.connfd).count 1).register answers.connfd
      answers.now).mapError Fault.memory = .ok (s.registry.admitted answers.connfd timer heap answers.now) := by
    rw [registered]
    rfl
  have few : ¬ (s.registry.opened answers.connfd).httpCnt ≥ maxFd := not_le.mpr room
  have within : ¬ answers.connfd ≥ maxFd := not_le.mpr inRange.2
  unfold acceptClient
  dsimp only
  rw [if_neg (not_lt.mpr inRange.1), if_neg few, if_neg within]
  change withRegistry _ (Except.mapError Fault.memory
    ((((s.registry.opened answers.connfd).addFd answers.connfd).count 1).register answers.connfd answers.now)) = _
  rw [done]
  rfl

theorem act_event (idle : s.main = .dispatching) (head : s.events = event :: rest) (answers : Answers) :
    s.act (.event answers) = { s with events := rest }.dispatch event answers := by
  simp only [act, idle, head]

theorem act_timer (s : ServerState) (idle : s.main = .dispatching) (handled : s.events = [])
    (timeout : s.timeout = true)
    (now : Int) :
    s.act (.timer now) =
      some ({ s with timeout := false }.withRegistry ((s.registry.tick now).mapError .memory)) :=
  if_pos ⟨idle, handled, timeout⟩

theorem act_accept (answers : Answers) (linked : s.registry.Linked) (idle : s.main = .dispatching)
    (head : s.events = event :: rest) (listen : event.fd = s.listenFd)
    (inRange : 0 ≤ answers.connfd ∧ answers.connfd < maxFd)
    (room : s.registry.httpCnt < maxFd) :
    ∃ timer heap, s.act (.event answers) = some (.ok { s with
        events := rest
        https := Function.update s.https answers.connfd ((s.https answers.connfd).init answers.connfd 0).1
        registry := s.registry.admitted answers.connfd timer heap answers.now }) ∧
      Gains s.registry.timerHeap timer answers.connfd (answers.now + 3 * timeslot) heap := by
  obtain ⟨timer, heap, accepted, gains⟩ :=
    acceptClient_ok (s := { s with events := rest }) linked inRange room
  refine ⟨timer, heap, ?_, gains⟩
  rw [act_event idle head, dispatch, if_pos listen, accepted]

theorem acceptClient_next (linked : s.registry.Linked) (fresh : s.Fresh answers.connfd)
    (idle : s.main = .dispatching) (head : s.events = event :: rest) (listen : event.fd = s.listenFd) :
    s.Next (.event answers) ({ s with events := rest }.acceptClient answers) := by
  by_cases failed : answers.connfd < 0
  · rw [acceptClient, if_pos failed]
    exact .acceptFails idle head listen
  obtain ⟨closed, notListen, notPipe⟩ := fresh.resolve_left failed
  by_cases full : (s.registry.opened answers.connfd).httpCnt ≥ maxFd
  · rw [acceptClient, if_neg failed]
    dsimp only
    rw [if_pos full]
    exact .refuse idle head listen closed
  by_cases beyond : answers.connfd ≥ maxFd
  · rw [acceptClient, if_neg failed]
    dsimp only
    rw [if_neg full, if_pos beyond]
    exact .outOfBounds idle head
  · have inRange : 0 ≤ answers.connfd ∧ answers.connfd < maxFd := ⟨not_lt.mp failed, not_le.mp beyond⟩
    obtain ⟨timer, heap, accepted, gains⟩ :=
      acceptClient_ok (s := { s with events := rest }) linked inRange (not_le.mp full)
    rw [accepted]
    exact .accept idle head listen closed notListen notPipe inRange gains

theorem renewed_ok {r : Registry} (placed : r.timerHeap.Placed)
    (leads : (r.clientDatas fd).Leads r.timerHeap fd timer) (now : Int) :
    ∃ heap, (r.renew fd now).mapError Fault.memory = .ok (r.renewed fd heap now) ∧
      Renews r.timerHeap timer (now + 3 * timeslot) heap := by
  obtain ⟨heap, renewed, renews⟩ := Registry.renew_spec placed leads now
  exact ⟨heap, by rw [renewed]; rfl, renews⟩

section Connection

variable {event : Ready} {rest : List Ready} {conn : Nat} {answers : Answers}
  (linked : s.registry.Linked) (idle : s.main = .dispatching) (head : s.events = event :: rest)
  (notListen : event.fd ≠ s.listenFd) (isOpen : s.registry.fds event.fd = some conn)
include linked idle head notListen isOpen

theorem hangUp_next :
    s.Next (.event answers) ({ s with events := rest }.withRegistry (s.registry.hangUp event.fd)) := by
  obtain ⟨timer, leads⟩ := linked.leads event.fd conn isOpen
  have next : s.Next (.event answers) _ := .drop idle head notListen isOpen leads (.inl rfl) (s.https event.fd)
  rw [Function.update_eq_self] at next
  rw [Registry.hangUp_eq leads]
  exact next

theorem readable_next (noHup : event.hup = false) (isIn : event.epollIn = true)
    (done : { s with events := rest }.readable event.fd answers = some result) : s.Next (.event answers) result := by
  obtain ⟨timer, leads⟩ := linked.leads event.fd conn isOpen
  unfold readable at done
  dsimp only at done
  split at done
  · cases done
  · rename_i returned
    split at done
    · rename_i full
      obtain ⟨heap, renewed, renews⟩ := renewed_ok linked.placed leads answers.now
      obtain rfl := Option.some.inj done
      change s.Next _ (withRegistry _ (Except.mapError Fault.memory (s.registry.renew event.fd answers.now)))
      rw [renewed]
      exact .refuseTask idle head notListen isOpen leads noHup isIn (Prod.ext rfl returned) full renews
    · rename_i room
      obtain rfl := Option.some.inj done
      exact .enterAppend idle head notListen isOpen (Prod.ext rfl returned) room
  · obtain rfl := Option.some.inj done
    change s.Next _ (withRegistry _ (s.registry.readFailed event.fd))
    rw [Registry.readFailed_eq leads]
    exact .drop idle head notListen isOpen leads (.inl rfl) _

theorem writable_next (done : { s with events := rest }.writable event.fd answers = some result) :
    s.Next (.event answers) result := by
  obtain ⟨timer, leads⟩ := linked.leads event.fd conn isOpen
  have hands := write_hands (s.https event.fd) answers.written
  unfold writable at done
  dsimp only at done
  split at done
  · cases done
  · rename_i returned
    obtain ⟨watch, performed⟩ := hands.goesOn returned s.registry
    have placed : (s.registry.modFd (s.https event.fd).sockFd watch).timerHeap.Placed := linked.placed
    obtain ⟨heap, renewed, renews⟩ := renewed_ok placed leads answers.now
    obtain rfl := Option.some.inj done
    change s.Next _ (withRegistry _ (Except.mapError Fault.memory
      ((((s.https event.fd).write answers.written).effects.foldl Registry.perform s.registry).renew event.fd
        answers.now)))
    rw [performed, renewed]
    exact .write idle head notListen isOpen leads hands.sockFd watch renews
  · rename_i returned
    obtain rfl := Option.some.inj done
    change s.Next _ (withRegistry _
      ((((s.https event.fd).write answers.written).effects.foldl Registry.perform s.registry).writeFailed event.fd))
    rcases hands.gives returned s.registry with performed | performed
    · rw [performed, Registry.writeFailed_eq leads]
      exact .drop idle head notListen isOpen leads (.inl rfl) _
    · rw [performed, Registry.writeFailed_eq (r := s.registry.modFd (s.https event.fd).sockFd .epollIn) leads]
      exact .drop idle head notListen isOpen leads (.inr rfl) _

end Connection

theorem dispatch_next (linked : s.registry.Linked) (fresh : s.Fresh answers.connfd) (idle : s.main = .dispatching)
    (head : s.events = event :: rest) (expected : s.Expected event)
    (done : { s with events := rest }.dispatch event answers = some result) : s.Next (.event answers) result := by
  unfold dispatch at done
  by_cases listen : event.fd = s.listenFd
  · rw [if_pos listen] at done
    obtain rfl := Option.some.inj done
    exact acceptClient_next linked fresh idle head listen
  rw [if_neg listen] at done
  have connection (other : ¬ (event.fd = s.pipeFd ∧ event.hup = false ∧ event.epollIn = true)) :
      ∃ conn, s.registry.fds event.fd = some conn :=
    Option.isSome_iff_exists.mp ((expected.resolve_left listen).resolve_left other)
  by_cases hup : event.hup = true
  · obtain ⟨conn, isOpen⟩ := connection (by rw [hup]; exact fun pipe => Bool.noConfusion pipe.2.1)
    rw [if_pos hup] at done
    obtain rfl := Option.some.inj done
    exact hangUp_next linked idle head listen isOpen
  have noHup : event.hup = false := Bool.eq_false_of_not_eq_true hup
  rw [if_neg hup] at done
  by_cases pipe : event.fd = s.pipeFd ∧ event.epollIn = true
  · rw [if_pos pipe] at done
    obtain rfl := Option.some.inj done
    exact .signals idle head pipe.1
  obtain ⟨conn, isOpen⟩ := connection fun is => pipe ⟨is.1, is.2.2⟩
  rw [if_neg pipe] at done
  by_cases isIn : event.epollIn = true
  · rw [if_pos isIn] at done
    exact readable_next linked idle head listen isOpen noHup isIn done
  rw [if_neg isIn] at done
  by_cases isOut : event.epollOut = true
  · rw [if_pos isOut] at done
    exact writable_next linked idle head listen isOpen done
  · rw [if_neg isOut] at done
    obtain rfl := Option.some.inj done
    exact .ignored idle head listen noHup (Bool.eq_false_of_not_eq_true isIn) (Bool.eq_false_of_not_eq_true isOut)

/-- Every step has one of the outcomes, if the event at hand can be expected and `Append` is
called for an open connection. -/
theorem act_next (linked : s.registry.Linked)
    (head : ∀ event rest, s.events = event :: rest → s.Expected event)
    (appending : ∀ fd, s.main = .appending fd → (s.registry.fds fd).isSome)
    (fresh : ∀ answers, step = .event answers → s.Fresh answers.connfd)
    (done : s.act step = some result) : s.Next step result := by
  cases step with
  | wait events =>
    simp only [act] at done
    split at done
    · rename_i ready
      obtain rfl := Option.some.inj done
      exact .wait ready.1 ready.2.1 events
    · cases done
  | event answers =>
    simp only [act] at done
    split at done
    · rename_i event rest idle found
      exact dispatch_next linked (fresh answers rfl) idle found (head event rest found) done
    · cases done
  | append now =>
    simp only [act] at done
    split at done
    · rename_i fd busy
      split at done
      · rename_i free
        obtain ⟨conn, isOpen⟩ := Option.isSome_iff_exists.mp (appending fd busy)
        obtain ⟨timer, leads⟩ := linked.leads fd conn isOpen
        obtain ⟨heap, renewed, renews⟩ := renewed_ok linked.placed leads now
        obtain rfl := Option.some.inj done
        change s.Next _ (withRegistry _ (Except.mapError Fault.memory (s.registry.renew fd now)))
        rw [renewed]
        exact .append busy free isOpen leads renews
      · cases done
    · cases done
  | timer now =>
    simp only [act] at done
    split at done
    · rename_i ready
      obtain rfl := Option.some.inj done
      cases ticked : s.registry.tick now with
      | error fault => exact .timerFault ticked
      | ok r => exact .timer ready.1 ready.2.1 ticked
    · cases done
  | take worker =>
    simp only [act] at done
    split at done
    · rename_i task later queued
      split at done
      · rename_i ready
        obtain rfl := Option.some.inj done
        exact .take queued ready.1 ready.2
      · cases done
    · cases done
  | finish worker answer =>
    simp only [act] at done
    split at done
    · rename_i task running
      cases parsed : (s.https task).httpParseTask answer with
      | error exception =>
        rw [parsed] at done
        obtain rfl := Option.some.inj done
        exact .terminated running parsed
      | ok outcome =>
        rw [parsed] at done
        obtain rfl := Option.some.inj done
        exact .finish running parsed
    · cases done
  | unlock worker =>
    simp only [act] at done
    split at done
    · rename_i returning
      obtain rfl := Option.some.inj done
      exact .unlock returning
    · cases done

end ServerState

end WSlyh.Server
