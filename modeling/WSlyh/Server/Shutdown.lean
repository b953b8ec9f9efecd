import WSlyh.Lib.Progress
import WSlyh.Server.Signals

/-! How the program stops: after a `SIGTERM` the event loop handles what it has been told, and waits once more
at most. -/

namespace WSlyh.Server

open Http Lib

/-- The steps a worker has to take until it waits again. -/
def Worker.steps : Worker → Nat
  | .waiting => 0
  | .running _ => 2
  | .returning => 1

/-- A task that is appended has three more steps before it. -/
def MainThread.steps : MainThread → Nat
  | .dispatching => 0
  | .appending _ => 4

theorem MainThread.steps_le (main : MainThread) : main.steps ≤ 4 := by
  cases main
  · exact Nat.zero_le _
  · exact le_rfl

namespace ServerState

variable {s s' : ServerState}

/-- What the worker with the lock still has to do. -/
def held (s : ServerState) : Nat := s.lock.elim 0 fun worker => (s.workers worker).steps

/-- The steps that follow from the events delivered so far: each may set `timeout` and append a task. -/
def load (s : ServerState) : Nat :=
  7 * s.events.length + s.main.steps + 2 * s.timeout.toNat + 3 * s.tasks.length + s.held

/-- The lock is held by a worker that does not wait. -/
def Held (s : ServerState) : Prop := ∀ worker, s.lock = some worker → s.workers worker ≠ .waiting

theorem Held.next (held : s.Held) (turn : s.Turn step s') : s'.Held := by
  cases turn with
  | wait | event | signals | append | timer => exact held
  | take tasks queued free waiting =>
    rintro worker ⟨⟩
    simp only [Function.update_self]
    exact Worker.noConfusion
  | @finish worker task answer running https registry =>
    intro other locked
    by_cases same : other = worker
    · rw [same]
      simp only [Function.update_self]
      exact Worker.noConfusion
    · simp only [Function.update_of_ne same]
      exact held other locked
  | unlock returning => exact fun _ locked => by cases locked

theorem Turn.sockets (turn : s.Turn step s') : s'.listenFd = s.listenFd ∧ s'.pipeFd = s.pipeFd := by
  cases turn <;> exact ⟨rfl, rfl⟩

theorem load_delivered (handled : s.events = []) (registry : Registry) (events : List Ready) :
    ({ s with registry, events } : ServerState).load = s.load + 7 * events.length := by
  have same : ({ s with registry, events } : ServerState).held = s.held := rfl
  simp only [ServerState.load, handled, List.length_nil, same]
  omega

/-- Every step but `epoll_wait` uses up some of the load. -/
theorem Turn.load (turn : s.Turn step s') (exclusive : s.Exclusive) (waits : ∀ events, step ≠ .wait events) :
    s'.load < s.load ∧ ∀ now, step = .timer now → s'.load + 2 ≤ s.load := by
  cases turn with
  | wait idle handled timely going events => exact absurd rfl (waits events)
  | @event event rest answers idle head other https registry main =>
    have same : ({ s with events := rest, https, registry, main } : ServerState).held = s.held := rfl
    have few := main.steps_le
    refine ⟨?_, fun _ same => ServerStep.noConfusion same⟩
    have done : s.main.steps = 0 := by rw [idle]; rfl
    simp only [ServerState.load, head, done, List.length_cons, same]
    omega
  | @signals event rest answers idle head pipe =>
    have same : ({ s with events := rest }.readSignals answers).held = s.held := rfl
    have few := ({ s with events := rest }.readSignals answers).timeout.toNat_le
    refine ⟨?_, fun _ same => ServerStep.noConfusion same⟩
    simp only [ServerState.load, head, List.length_cons, same]
    simp only [readSignals] at few ⊢
    omega
  | @append sockfd now appending free registry =>
    have same : ({ s with tasks := s.tasks ++ [sockfd], main := .dispatching, registry } : ServerState).held =
      s.held := rfl
    refine ⟨?_, fun _ same => ServerStep.noConfusion same⟩
    simp only [ServerState.load, appending, List.length_append, List.length_singleton, same, MainThread.steps]
    omega
  | timer idle handled timeout registry =>
    have same : ({ s with timeout := false, registry } : ServerState).held = s.held := rfl
    have less : ({ s with timeout := false, registry } : ServerState).load + 2 ≤ s.load := by
      simp only [ServerState.load, timeout, same, Bool.toNat_true, Bool.toNat_false]
      omega
    exact ⟨by omega, fun _ _ => less⟩
  | take tasks queued free waiting =>
    refine ⟨?_, fun _ same => ServerStep.noConfusion same⟩
    simp only [ServerState.load, held, queued, free, Option.elim, Function.update_self, List.length_cons, Worker.steps]
    omega
  | finish running https registry =>
    have locked := exclusive _ (by rw [running]; exact Worker.noConfusion)
    refine ⟨?_, fun _ same => ServerStep.noConfusion same⟩
    simp only [ServerState.load, held, locked, Option.elim, running, Function.update_self, Worker.steps]
    omega
  | unlock returning =>
    have locked := exclusive _ (by rw [returning]; exact Worker.noConfusion)
    refine ⟨?_, fun _ same => ServerStep.noConfusion same⟩
    simp only [ServerState.load, held, locked, Option.elim, returning, Worker.steps]
    omega

end ServerState

namespace Signalled

variable {s s' : Signalled}

/-- `epoll_wait` reports the pipe when there is something in it, and no second `SIGTERM` comes. -/
def Attends (s : Signalled) : SignalledStep → Prop
  | .server (.wait events) => s.pipe ≠ [] → ∃ event ∈ events, s.server.fromPipe event = true
  | .signal .term => False
  | _ => True

/-- The event loop is left. -/
structure Ended (s : Signalled) : Prop where
  stopped : s.server.stopServer = true
  handled : s.server.main = .dispatching ∧ s.server.events = [] ∧ s.server.timeout = false

/-- The next step fails. -/
def Crashes (s : Signalled) : Prop := ∃ step fault, s.act step = some (.error fault)

/-- The event loop has read the `SIGTERM`, or is about to. -/
def Sees (s : Signalled) : Prop :=
  s.server.stopServer = true ∨ ∃ event ∈ s.server.events, s.server.fromPipe event = true

instance (s : Signalled) : Decidable s.Sees := inferInstanceAs (Decidable (_ ∨ _))

/-- One more round of events, as long as the pipe is not reported. -/
def ahead (s : Signalled) : Nat := if s.Sees then 0 else 7 * maxEventNumber + 1

/-- The steps left: those that follow from what is delivered, one alarm, and the rounds ahead. -/
def remaining (s : Signalled) : Nat := s.server.load + s.alarm.toNat + s.ahead

/-- What a run keeps once a `SIGTERM` is in the pipe. -/
structure Stopping (s : Signalled) : Prop where
  keeps : s.Keeps
  exclusive : s.server.Exclusive
  held : s.server.Held
  sockets : s.server.listenFd ≠ s.server.pipeFd
  asked : s.server.stopServer = true ∨ .term ∈ s.pipe

theorem ahead_mono (sees : s.Sees → s'.Sees) : s'.ahead ≤ s.ahead := by
  unfold ahead
  split
  · exact Nat.zero_le _
  · rename_i blind
    rw [if_neg fun seen => blind (sees seen)]

theorem sigHandler_server (s : Signalled) (signal : Signal) : (s.sigHandler signal).server = s.server := by
  unfold sigHandler
  split <;> rfl

theorem subset_sigHandler (s : Signalled) (signal : Signal) : s.pipe ⊆ (s.sigHandler signal).pipe := by
  unfold sigHandler
  split
  · exact List.subset_append_left ..
  · exact List.Subset.refl _

theorem after_server (s : Signalled) (step : ServerStep) (server : ServerState) :
    (s.after step server).server = server := by
  cases step <;> rfl

/-- With one alarm at most in the pipe, a `SIGTERM` in it is among the signals that are received next. -/
theorem Keeps.term_soon (keeps : s.Keeps) (asked : .term ∈ s.pipe) : .term ∈ s.pipe.take signalsSize := by
  have once := keeps.ticking.once
  have known := keeps.known
  unfold underWay at once
  have size : signalsSize = 1022 + 2 := rfl
  rw [size]
  generalize s.pipe = pipe at asked once known
  match pipe with
  | [] => cases asked
  | [signal] => exact asked
  | first :: second :: rest =>
    rw [List.take_succ_cons, List.take_succ_cons]
    cases first with
    | term => exact List.mem_cons_self
    | other => exact absurd List.mem_cons_self known
    | alarm =>
      cases second with
      | term => exact List.mem_cons_of_mem _ List.mem_cons_self
      | other => exact absurd (List.mem_cons_of_mem _ List.mem_cons_self) known
      | alarm =>
        rw [List.count_cons_self, List.count_cons_self] at once
        omega

/-- When the pipe is read, the `SIGTERM` is seen. -/
theorem Stopping.stops {answers : Answers} (stopping : s.Stopping) (receives : s.Receives (.event answers))
    (idle : s.server.main = .dispatching) (head : s.server.events = event :: rest)
    (pipe : s.server.fromPipe event = true) :
    ({ s.server with events := rest }.readSignals answers).stopServer = true := by
  have reads : s.server.reads (.event answers) = true := by
    simp only [ServerState.reads, idle, head]
    exact pipe
  rcases stopping.asked with stopped | term
  · simp [ServerState.readSignals, stopped]
  · have soon := stopping.keeps.term_soon term
    rw [← receives reads] at soon
    simp [ServerState.readSignals, soon]

/-- A server step before which the program was asked to stop. -/
theorem Stopping.server (stopping : s.Stopping) (taken : s.act (.server step) = some (.ok s')) : s'.Stopping := by
  have keeps := stopping.keeps.server taken
  obtain ⟨receives, server, acted, rfl⟩ := of_server taken
  have turn := ServerState.turn_of_act acted
  have sockets := turn.sockets
  refine ⟨keeps, ?_, ?_, ?_, ?_⟩
  · rw [after_server]
    exact stopping.exclusive.next acted
  · rw [after_server]
    exact stopping.held.next turn
  · rw [after_server, sockets.1, sockets.2]
    exact stopping.sockets
  · rw [after_server]
    cases turn with
    | @signals event rest answers idle head pipe =>
      exact .inl (stopping.stops receives idle head pipe)
    | timer idle handled timeout registry => exact stopping.asked
    | @event event rest answers idle head other https registry main =>
      have silent : s.server.reads (.event answers) = false := by
        simp only [ServerState.reads, idle, head]
        exact other
      rw [after_same (fun _ same => ServerStep.noConfusion same) silent]
      exact stopping.asked
    | wait | append | take | finish | unlock =>
      rw [after_same (fun _ same => ServerStep.noConfusion same) rfl]
      exact stopping.asked

/-- A signal is none of the steps that were counted, but for the alarm that was set. -/
theorem Stopping.signal {signal : Signal} (stopping : s.Stopping) (attends : s.Attends (.signal signal))
    (taken : s.act (.signal signal) = some (.ok s')) : s'.Stopping ∧ s'.remaining < s.remaining := by
  have keeps := stopping.keeps.next taken
  cases signal with
  | alarm =>
    simp only [Signalled.act] at taken
    split at taken
    · rename_i set
      cases taken
      have server := s.sigHandler_server .alarm
      refine ⟨⟨keeps, ?_, ?_, ?_, ?_⟩, ?_⟩
      · simp only [server]
        exact stopping.exclusive
      · simp only [server]
        exact stopping.held
      · simp only [server]
        exact stopping.sockets
      · simp only [server]
        exact stopping.asked.imp_right fun term => s.subset_sigHandler .alarm term
      · have same : ahead { s.sigHandler .alarm with alarm := false, alarms := s.alarms + 1 } ≤ s.ahead := by
          apply ahead_mono
          simp only [Sees, server]
          exact id
        simp only [server] at same
        simp only [remaining, server, set, Bool.toNat_true, Bool.toNat_false]
        omega
    · cases taken
  | term => exact attends.elim
  | other => cases taken

/-- The `SIGTERM` stays in sight. -/
theorem Stopping.sees {server : ServerState} (stopping : s.Stopping) (receives : s.Receives step)
    (turn : s.server.Turn step server)
    (waits : ∀ events, step ≠ .wait events) (sees : s.Sees) : (s.after step server).Sees := by
  rw [Sees, after_server]
  cases turn with
  | wait idle handled timely going events => exact absurd rfl (waits events)
  | @event event rest answers idle head other https registry main =>
    refine sees.imp_right ?_
    rintro ⟨reported, member, pipe⟩
    rw [head] at member
    rcases List.mem_cons.mp member with rfl | later
    · cases other.symm.trans pipe
    · exact ⟨reported, later, pipe⟩
  | @signals event rest answers idle head pipe =>
    exact .inl (stopping.stops receives idle head pipe)
  | append | timer | take | finish | unlock => exact sees

/-- Each step of the server uses up some of the steps left; `epoll_wait` is called once more at most. -/
theorem Stopping.remaining_server (stopping : s.Stopping) (attends : s.Attends (.server step))
    (taken : s.act (.server step) = some (.ok s')) : s'.remaining < s.remaining := by
  obtain ⟨receives, server, acted, rfl⟩ := of_server taken
  have turn := ServerState.turn_of_act acted
  by_cases waits : ∀ events, step ≠ .wait events
  · obtain ⟨less, timer⟩ := turn.load stopping.exclusive waits
    have ahead := ahead_mono (stopping.sees receives turn waits)
    rw [remaining, remaining, after_server]
    by_cases ticks : ∃ now, step = .timer now
    · obtain ⟨now, rfl⟩ := ticks
      have few := (s.after (.timer now) server).alarm.toNat_le
      have enough := timer now rfl
      omega
    · have alarm : (s.after step server).alarm = s.alarm := by
        cases step with
        | timer now => exact absurd ⟨now, rfl⟩ ticks
        | wait | event | append | take | finish | unlock => rfl
      rw [alarm]
      omega
  · obtain ⟨events, same⟩ := Classical.not_forall.mp waits
    obtain rfl := Classical.not_not.mp same
    cases turn with
    | wait idle handled timely going _ few registry =>
      have asked : .term ∈ s.pipe := stopping.asked.resolve_left (by rw [going]; exact Bool.false_ne_true)
      obtain ⟨event, member, pipe⟩ := attends (List.ne_nil_of_mem asked)
      have blind : ¬ s.Sees := by
        rintro (stopped | ⟨other, waiting, _⟩)
        · cases going.symm.trans stopped
        · rw [handled] at waiting
          cases waiting
      have after : (s.after (.wait events) { s.server with registry, events }).ahead = 0 :=
        if_pos (.inr ⟨event, member, pipe⟩)
      have before : s.ahead = 7 * maxEventNumber + 1 := if_neg blind
      have alarm : (s.after (.wait events) { s.server with registry, events }).alarm = s.alarm := rfl
      rw [remaining, remaining, after, before, alarm, after_server, ServerState.load_delivered handled]
      omega

/-- With the steps that attend to the pipe. -/
def attentive : System Signalled SignalledStep := signalSystem.only Attends

theorem attentive_winds : attentive.Winds fun s n => s.Stopping ∧ s.remaining = n := by
  rintro s step s' n ⟨stopping, rfl⟩ ⟨attends, taken⟩
  cases step with
  | server step => exact ⟨s'.remaining, stopping.remaining_server attends taken, stopping.server taken, rfl⟩
  | signal signal =>
    obtain ⟨stopping', less⟩ := stopping.signal attends taken
    exact ⟨s'.remaining, less, stopping', rfl⟩

/-- Answers with which every call returns. -/
def failing (s : Signalled) : Answers where
  connfd := -1
  received := [.error .other]
  written := [⟨-1, .other⟩]
  signals := s.pipe.take signalsSize
  now := 0

theorem read_fails (conn : CHttp) : (conn.read [.error .other]).2 = some false := by
  unfold CHttp.read
  split
  · rfl
  · split <;> rfl

theorem write_returns (conn : CHttp) : (conn.write [⟨-1, .other⟩]).ret ≠ none := by
  unfold CHttp.write
  split
  · exact Option.some_ne_none _
  · rw [CHttp.writeLoop]
    exact Option.some_ne_none _

theorem dispatch_returns (server : ServerState) (event : Ready) (s : Signalled) :
    server.dispatch event s.failing ≠ none := by
  unfold ServerState.dispatch
  split
  · exact Option.some_ne_none _
  split
  · exact Option.some_ne_none _
  split
  · exact Option.some_ne_none _
  split
  · have failed : ((server.https event.fd).read s.failing.received).2 = some false := read_fails _
    unfold ServerState.readable
    dsimp only
    rw [failed]
    exact Option.some_ne_none _
  split
  · have returned : ((server.https event.fd).write s.failing.written).ret ≠ none := write_returns _
    unfold ServerState.writable
    dsimp only
    split
    · rename_i none_
      exact absurd none_ returned
    · exact Option.some_ne_none _
    · exact Option.some_ne_none _
  · exact Option.some_ne_none _

/-- A step that is enabled and not taken is one that fails. -/
theorem crashes_of_enabled (rest : attentive.AtRest s) (attends : s.Attends (.server step))
    (receives : s.Receives step)
    (enabled : s.server.act step ≠ none) : s.Crashes := by
  cases acted : s.server.act step with
  | none => exact absurd acted enabled
  | some outcome =>
    have taken : s.act (.server step) = some (outcome.map (s.after step)) := by
      simp only [Signalled.act, if_pos receives, acted, Option.map_some]
    cases outcome with
    | error fault => exact ⟨_, fault, taken⟩
    | ok server => exact absurd ⟨attends, taken⟩ (rest _ (s.after step server))

/-- Where nothing goes on, the event loop has ended, or the next step fails. -/
theorem Stopping.ends (stopping : s.Stopping) (rest : attentive.AtRest s) : s.Ended ∨ s.Crashes := by
  have crashes (step : ServerStep) := @crashes_of_enabled s step rest
  cases main : s.server.main with
  | appending sockfd =>
    cases locked : s.server.lock with
    | none =>
      refine .inr (crashes (.append 0) trivial trivial ?_)
      simp only [ServerState.act, main, locked, if_true]
      exact Option.some_ne_none _
    | some worker =>
      cases point : s.server.workers worker with
      | waiting => exact absurd point (stopping.held worker locked)
      | running task =>
        refine .inr (crashes (.finish worker ⟨none, .null, []⟩) trivial trivial ?_)
        simp only [ServerState.act, point]
        split <;> exact Option.some_ne_none _
      | returning =>
        refine .inr (crashes (.unlock worker) trivial trivial ?_)
        simp only [ServerState.act, point, if_true]
        exact Option.some_ne_none _
  | dispatching =>
    cases events : s.server.events with
    | cons event later =>
      refine .inr (crashes (.event s.failing) trivial (fun _ => rfl) ?_)
      simp only [ServerState.act, main, events]
      exact dispatch_returns _ event s
    | nil =>
      cases timeout : s.server.timeout with
      | true =>
        refine .inr (crashes (.timer 0) trivial trivial ?_)
        simp only [ServerState.act, main, events, timeout, and_self, if_true]
        exact Option.some_ne_none _
      | false =>
        cases stopped : s.server.stopServer with
        | true => exact .inl ⟨stopped, main, events, timeout⟩
        | false =>
          refine .inr (crashes (.wait [⟨s.server.pipeFd, false, true, false⟩]) (fun _ => ?_) trivial ?_)
          · refine ⟨_, List.mem_singleton_self _, ?_⟩
            simp [ServerState.fromPipe, stopping.sockets.symm]
          · simp [ServerState.act, main, events, timeout, stopped, maxEventNumber]

theorem reachable_stable (reachable : signalSystem.Reachable allowed s) :
    s.Keeps ∧ s.server.Exclusive ∧ s.server.Held ∧ s.server.listenFd ≠ s.server.pipeFd := by
  refine ⟨reachable_keeps reachable, reachable.invariant
    (fun s => s.server.Exclusive ∧ s.server.Held ∧ s.server.listenFd ≠ s.server.pipeFd) ?_ ?_⟩
  · rintro s ⟨listenFd, pipeFd, capacity, now, room, _, _, apart, rfl⟩
    exact ⟨fun _ busy => absurd rfl busy, (fun _ locked => by cases locked), apart⟩
  · rintro s step s' ⟨exclusive, held, apart⟩ _ taken
    cases step with
    | server step =>
      obtain ⟨_, server, acted, rfl⟩ := of_server taken
      have turn := ServerState.turn_of_act acted
      rw [after_server, turn.sockets.1, turn.sockets.2]
      exact ⟨exclusive.next acted, held.next turn, apart⟩
    | signal signal =>
      have same : s'.server = s.server := by
        cases signal with
        | alarm =>
          simp only [signalSystem, Signalled.act] at taken
          split at taken
          · cases taken
            exact s.sigHandler_server .alarm
          · cases taken
        | term =>
          cases taken
          exact s.sigHandler_server .term
        | other => cases taken
      rw [same]
      exact ⟨exclusive, held, apart⟩

end Signalled

/-- After a `SIGTERM` the program makes a bounded number of steps, in whatever order the workers, the alarm and the
event loop make them, and leaves the event loop unless a step fails. -/
theorem shutsDown_of_reachable {s : Signalled} (reachable : signalSystem.Reachable (fun _ _ => True) s)
    (asked : .term ∈ s.pipe) : Signalled.attentive.Settles s s.remaining fun s => s.Ended ∨ s.Crashes := by
  obtain ⟨keeps, exclusive, held, sockets⟩ := Signalled.reachable_stable reachable
  exact Signalled.attentive_winds.settles (fun s n ⟨stopping, _⟩ rest => stopping.ends rest)
    ⟨⟨keeps, exclusive, held, sockets, .inr asked⟩, rfl⟩

/-- A `SIGTERM` comes while an event of a connection waits to be handled. -/
theorem termWaits_shutsDown : ∃ s : Signalled, s.server.events.length = 1 ∧ s.pipe = [.alarm, .term] ∧
    Signalled.attentive.Settles s 70008 fun s => s.Ended ∨ s.Crashes := by
  have checked : ((System.Reachable.follow Signalled.act (fun _ _ => true) (.start 3 4 1 0 8)
      [.server (.wait [⟨3, false, true, false⟩]), .signal .alarm, .signal .term]).any fun s =>
      s.server.events.length == 1 && s.pipe == [.alarm, .term] && s.remaining == 70008) = true := by decide +kernel
  obtain ⟨s, followed, state⟩ := (Option.any_eq_true ..).mp checked
  rw [Bool.and_eq_true, Bool.and_eq_true, beq_iff_eq, beq_iff_eq, beq_iff_eq] at state
  obtain ⟨⟨events, pipe⟩, bound⟩ := state
  have reachable : signalSystem.Reachable (fun _ _ => True) s := System.Reachable.followed
    (.init ⟨3, 4, 1, 0, 8, Nat.one_pos, by decide, by decide, rfl⟩) (fun _ _ _ _ => trivial) (fun _ _ _ => id) followed
  have settles := shutsDown_of_reachable reachable (by rw [pipe]; decide)
  rw [bound] at settles
  exact ⟨s, events, pipe, settles⟩

end WSlyh.Server
