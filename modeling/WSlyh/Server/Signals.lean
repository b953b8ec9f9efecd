import WSlyh.Server.Loop

/-! The signals of the program: `SigHandler` sends them through a pipe to the event loop, which sets the
alarm clock again when it has handled an alarm. -/

namespace WSlyh.Server

open Http Lib

/-- `char signals[1024]` -/
def signalsSize : Nat := 1024

/-- The event loop takes the branch of the pipe for this event. -/
def ServerState.fromPipe (s : ServerState) (event : Ready) : Bool :=
  event.fd != s.listenFd && !event.hup && event.fd == s.pipeFd && event.epollIn

/-- The step reads the pipe. -/
def ServerState.reads (s : ServerState) : ServerStep → Bool
  | .event _ =>
    match s.main, s.events with
    | .dispatching, event :: _ => s.fromPipe event
    | _, _ => false
  | _ => false

/-- `alarm` tells that the alarm clock is set, `pipe` are the signals sent and not received yet, and `room`
is how many the pipe takes. `alarms` and `ticks` count the alarms and the calls of `TimerHandler`. -/
structure Signalled where
  server : ServerState
  alarm : Bool
  pipe : List Signal
  room : Nat
  alarms : Nat
  ticks : Nat

inductive SignalledStep
  | server (step : ServerStep)
  | signal (signal : Signal)

namespace Signalled

/-- `alarm(TIMESLOT)` is called once before the event loop. -/
def start (listenFd pipeFd : Int) (capacity : Nat) (now : Int) (room : Nat) : Signalled where
  server := .start listenFd pipeFd capacity now
  alarm := true
  pipe := []
  room := room
  alarms := 0
  ticks := 0

/-- The pipe does not block: when it is full, the signal is lost. -/
def sigHandler (s : Signalled) (signal : Signal) : Signalled :=
  if s.pipe.length < s.room then { s with pipe := s.pipe ++ [signal] } else s

/-- `recv` hands over the signals in the pipe, as far as the buffer goes. -/
def Receives (s : Signalled) : ServerStep → Prop
  | .event answers => s.server.reads (.event answers) = true → answers.signals = s.pipe.take signalsSize
  | _ => True

instance (s : Signalled) (step : ServerStep) : Decidable (s.Receives step) := by
  cases step <;> unfold Receives <;> infer_instance

/-- What a step of the server leaves of the pipe and the alarm clock; `TimerHandler` sets it. -/
def after (s : Signalled) (step : ServerStep) (server : ServerState) : Signalled :=
  match step with
  | .timer _ => { s with server, alarm := true, ticks := s.ticks + 1 }
  | step => { s with server, pipe := if s.server.reads step then s.pipe.drop signalsSize else s.pipe }

/-- `SIGALRM` comes when the alarm clock runs out, `SIGTERM` at any time. No other signal has a handler. -/
def act (s : Signalled) : SignalledStep → Option (Except Fault Signalled)
  | .server step => if s.Receives step then (s.server.act step).map (.map (s.after step)) else none
  | .signal .alarm =>
    if s.alarm then some (.ok { s.sigHandler .alarm with alarm := false, alarms := s.alarms + 1 }) else none
  | .signal .term => some (.ok (s.sigHandler .term))
  | .signal .other => none

/-- The tick that is under way: its alarm is still to come, or in the pipe, or seen by the event loop. -/
def underWay (s : Signalled) : Nat := s.alarm.toNat + s.pipe.count .alarm + s.server.timeout.toNat

/-- There is one tick under way at a time, and one as long as nobody has asked the program to stop. As many ticks
are done as alarms came, but for the one that is not set or not handled yet. -/
structure Ticking (s : Signalled) : Prop where
  once : s.underWay ≤ 1
  goes : s.server.stopServer = false → .term ∉ s.pipe → s.underWay = 1
  ticks : s.alarm.toNat + s.alarms = s.ticks + 1

end Signalled

/-- The runs of the program with its signals. The pipe takes one of them at least. -/
def signalSystem : System Signalled SignalledStep where
  init s := ∃ listenFd pipeFd capacity now room, 0 < capacity ∧ 0 < room ∧ listenFd ≠ pipeFd ∧
    s = .start listenFd pipeFd capacity now room
  step s step s' := s.act step = some (.ok s')

namespace ServerState

variable {s s' : ServerState}

/-- What a step of the server does to its control state. -/
inductive Turn (s : ServerState) : ServerStep → ServerState → Prop where
  | wait (idle : s.main = .dispatching) (handled : s.events = []) (timely : s.timeout = false)
      (going : s.stopServer = false) (events : List Ready) (few : events.length ≤ maxEventNumber)
      (registry : Registry) :
      s.Turn (.wait events) { s with registry, events }
  | event (idle : s.main = .dispatching) (head : s.events = event :: rest) (other : s.fromPipe event = false)
      (https : Int → CHttp) (registry : Registry) (main : MainThread) :
      s.Turn (.event answers) { s with events := rest, https, registry, main }
  | signals (idle : s.main = .dispatching) (head : s.events = event :: rest) (pipe : s.fromPipe event = true) :
      s.Turn (.event answers) ({ s with events := rest }.readSignals answers)
  | append (appending : s.main = .appending sockfd) (free : s.lock = none) (registry : Registry) :
      s.Turn (.append now) { s with tasks := s.tasks ++ [sockfd], main := .dispatching, registry }
  | timer (idle : s.main = .dispatching) (handled : s.events = []) (timeout : s.timeout = true) (registry : Registry) :
      s.Turn (.timer now) { s with timeout := false, registry }
  | take (tasks : List Int) (queued : s.tasks = task :: tasks) (free : s.lock = none)
    (waiting : s.workers worker = .waiting) :
      s.Turn (.take worker)
        { s with tasks, lock := some worker, workers := Function.update s.workers worker (.running task) }
  | finish (running : s.workers worker = .running task) (https : Int → CHttp) (registry : Registry) :
      s.Turn (.finish worker answer)
        { s with https, registry, workers := Function.update s.workers worker .returning }
  | unlock (returning : s.workers worker = .returning) :
      s.Turn (.unlock worker) { s with lock := none, workers := Function.update s.workers worker .waiting }

theorem of_withRegistry {r : Except Fault Registry} (done : s.withRegistry r = .ok s') :
    ∃ registry, s' = { s with registry } := by
  cases r with
  | error fault => cases done
  | ok registry => exact ⟨registry, (Except.ok.inj done).symm⟩

theorem of_acceptClient {answers : Answers} (done : s.acceptClient answers = .ok s') :
    ∃ https registry, s' = { s with https, registry } := by
  unfold acceptClient at done
  dsimp only at done
  split at done
  · cases done
    exact ⟨s.https, s.registry, rfl⟩
  split at done
  · cases done
    exact ⟨s.https, _, rfl⟩
  split at done
  · cases done
  · obtain ⟨registry, rfl⟩ := of_withRegistry done
    exact ⟨_, registry, rfl⟩

theorem of_readable (done : s.readable sockfd answers = some (.ok s')) :
    ∃ https registry main, s' = { s with https, registry, main } := by
  unfold readable at done
  dsimp only at done
  split at done
  · cases done
  · split at done
    · obtain ⟨registry, rfl⟩ := of_withRegistry (Option.some.inj done)
      exact ⟨_, registry, s.main, rfl⟩
    · cases done
      exact ⟨_, s.registry, _, rfl⟩
  · obtain ⟨registry, rfl⟩ := of_withRegistry (Option.some.inj done)
    exact ⟨_, registry, s.main, rfl⟩

theorem of_writable (done : s.writable sockfd answers = some (.ok s')) :
    ∃ https registry, s' = { s with https, registry } := by
  unfold writable at done
  dsimp only at done
  split at done
  · cases done
  · obtain ⟨registry, rfl⟩ := of_withRegistry (Option.some.inj done)
    exact ⟨_, registry, rfl⟩
  · obtain ⟨registry, rfl⟩ := of_withRegistry (Option.some.inj done)
    exact ⟨_, registry, rfl⟩

/-- An event that does not come from the pipe leaves the signals alone. -/
theorem of_dispatch (done : s.dispatch event answers = some (.ok s')) :
    s.fromPipe event = false ∧ (∃ https registry main, s' = { s with https, registry, main }) ∨
      s.fromPipe event = true ∧ s' = s.readSignals answers := by
  unfold dispatch at done
  unfold fromPipe
  split at done
  · rename_i listen
    obtain ⟨https, registry, rfl⟩ := of_acceptClient (Option.some.inj done)
    exact .inl ⟨by simp [listen], https, registry, s.main, rfl⟩
  rename_i notListen
  split at done
  · rename_i hup
    obtain ⟨registry, rfl⟩ := of_withRegistry (Option.some.inj done)
    exact .inl ⟨by simp [hup], s.https, registry, s.main, rfl⟩
  rename_i noHup
  split at done
  · rename_i pipe
    cases done
    have apart : s.pipeFd ≠ s.listenFd := fun same => notListen (pipe.1.trans same)
    exact .inr ⟨by simp [apart, noHup, pipe], rfl⟩
  rename_i notPipe
  have other : (event.fd != s.listenFd && !event.hup && event.fd == s.pipeFd && event.epollIn) = false := by
    by_cases fd : event.fd = s.pipeFd
    · have noIn : event.epollIn = false := by simpa [fd] using notPipe
      rw [noIn, Bool.and_false]
    · rw [beq_false_of_ne fd, Bool.and_false, Bool.false_and]
  refine .inl ⟨other, ?_⟩
  split at done
  · exact of_readable done
  split at done
  · obtain ⟨https, registry, rfl⟩ := of_writable done
    exact ⟨https, registry, s.main, rfl⟩
  · cases done
    exact ⟨s.https, s.registry, s.main, rfl⟩

theorem turn_of_act (done : s.act step = some (.ok s')) : s.Turn step s' := by
  cases step with
  | wait events =>
    simp only [ServerState.act] at done
    split at done
    · rename_i ready
      obtain ⟨idle, handled, timely, going, few⟩ := ready
      cases done
      exact .wait idle handled timely going events few _
    · cases done
  | event answers =>
    simp only [ServerState.act] at done
    split at done
    · rename_i idle head
      rcases of_dispatch done with ⟨other, https, registry, main, rfl⟩ | ⟨pipe, rfl⟩
      · exact .event idle head other https registry main
      · exact .signals idle head pipe
    · cases done
  | append now =>
    simp only [ServerState.act] at done
    split at done
    · rename_i appending
      split at done
      · rename_i free
        obtain ⟨registry, rfl⟩ := of_withRegistry (Option.some.inj done)
        exact .append appending free registry
      · cases done
    · cases done
  | timer now =>
    simp only [ServerState.act] at done
    split at done
    · rename_i ready
      obtain ⟨registry, rfl⟩ := of_withRegistry (Option.some.inj done)
      exact .timer ready.1 ready.2.1 ready.2.2 registry
    · cases done
  | take worker =>
    simp only [ServerState.act] at done
    split at done
    · rename_i queued
      split at done
      · rename_i ready
        cases done
        exact .take _ queued ready.1 ready.2
      · cases done
    · cases done
  | finish worker answer =>
    simp only [ServerState.act] at done
    split at done
    · rename_i running
      split at done
      · cases done
      · cases done
        exact .finish running _ _
    · cases done
  | unlock worker =>
    simp only [ServerState.act] at done
    split at done
    · rename_i returning
      cases done
      exact .unlock returning
    · cases done

end ServerState

namespace Signalled

variable {s s' : Signalled}

/-- What every reachable state keeps: a signal is lost only where the pipe is full, and then a `SIGTERM` is in it. -/
structure Keeps (s : Signalled) : Prop where
  ticking : s.Ticking
  room : 0 < s.room
  known : .other ∉ s.pipe

/-- A full pipe that holds no `SIGALRM` holds a `SIGTERM`. -/
theorem Keeps.term_of_full (keeps : s.Keeps) (full : ¬ s.pipe.length < s.room) (noAlarm : s.pipe.count .alarm = 0) :
    .term ∈ s.pipe := by
  have some_ : s.pipe ≠ [] := by
    intro empty
    rw [empty] at full
    exact full keeps.room
  obtain ⟨signal, rest, split⟩ := List.exists_cons_of_ne_nil some_
  have member : signal ∈ s.pipe := by rw [split]; exact List.mem_cons_self
  cases signal with
  | alarm => exact absurd member (List.count_eq_zero.mp noAlarm)
  | term => exact member
  | other => exact absurd member keeps.known

theorem Keeps.alarmed (keeps : s.Keeps) (set : s.alarm = true) :
    Keeps { s.sigHandler .alarm with alarm := false, alarms := s.alarms + 1 } := by
  have once := keeps.ticking.once
  have ticks := keeps.ticking.ticks
  rw [set, Bool.toNat_true] at ticks
  rw [underWay, set, Bool.toNat_true] at once
  have noAlarm : s.pipe.count .alarm = 0 := by omega
  have noTimeout : s.server.timeout = false := by
    cases timeout : s.server.timeout with
    | false => rfl
    | true =>
      rw [timeout, Bool.toNat_true] at once
      omega
  unfold sigHandler
  split
  · have sum : (s.pipe ++ [Signal.alarm]).count .alarm = 1 := by
      rw [List.count_append, noAlarm, List.count_singleton_self]
    have one : false.toNat + (s.pipe ++ [Signal.alarm]).count .alarm + s.server.timeout.toNat = 1 := by
      rw [sum, noTimeout]
      rfl
    refine ⟨⟨one.le, fun _ _ => one, ?_⟩, keeps.room, ?_⟩
    · simp only [Bool.toNat_false]
      omega
    · simpa using keeps.known
  · rename_i full
    have none_ : false.toNat + s.pipe.count .alarm + s.server.timeout.toNat = 0 := by
      rw [noAlarm, noTimeout]
      rfl
    refine ⟨⟨none_.le.trans (Nat.zero_le _), fun _ noTerm => absurd (keeps.term_of_full full noAlarm) noTerm, ?_⟩,
      keeps.room,
      keeps.known⟩
    simp only [Bool.toNat_false]
    omega

theorem Keeps.termed (keeps : s.Keeps) : (s.sigHandler .term).Keeps := by
  unfold sigHandler
  split
  · have same : (s.pipe ++ [Signal.term]).count .alarm = s.pipe.count .alarm := by
      rw [List.count_append]
      rfl
    refine ⟨⟨?_, fun _ noTerm => absurd ?_ noTerm, keeps.ticking.ticks⟩, keeps.room, ?_⟩
    · simp only [underWay, same]
      exact keeps.ticking.once
    · exact List.mem_append_right _ (List.mem_singleton_self _)
    · simpa using keeps.known
  · exact keeps

/-- A step that leaves the signals alone. -/
theorem Keeps.same (keeps : s.Keeps) {server : ServerState} (timeout : server.timeout = s.server.timeout)
    (stopServer : server.stopServer = s.server.stopServer) : Keeps { s with server } := by
  refine ⟨⟨?_, ?_, keeps.ticking.ticks⟩, keeps.room, keeps.known⟩
  · simp only [underWay, timeout]
    exact keeps.ticking.once
  · simp only [underWay, timeout, stopServer]
    exact keeps.ticking.goes

/-- The signals that are received go from the pipe to the flags. -/
theorem Keeps.received (keeps : s.Keeps) {answers : Answers} (all : answers.signals = s.pipe.take signalsSize)
    (events : List Ready) :
    Keeps { s with server := { s.server with events }.readSignals answers, pipe := s.pipe.drop signalsSize } := by
  have parts : s.pipe.count .alarm = (s.pipe.take signalsSize).count .alarm +
    (s.pipe.drop signalsSize).count .alarm := by
    rw [← List.count_append, List.take_append_drop]
  have once := keeps.ticking.once
  rw [underWay, parts] at once
  have sum : s.alarm.toNat + (s.pipe.drop signalsSize).count .alarm +
      (s.server.timeout || (s.pipe.take signalsSize).contains .alarm).toNat = s.underWay := by
    rw [underWay, parts]
    cases found : (s.pipe.take signalsSize).contains .alarm with
    | false =>
      have none_ : (s.pipe.take signalsSize).count .alarm = 0 :=
        List.count_eq_zero.mpr fun member => by simp [member] at found
      rw [Bool.or_false, none_, Nat.zero_add]
    | true =>
      have some_ : 0 < (s.pipe.take signalsSize).count .alarm := List.count_pos_iff.mpr (by simpa using found)
      rw [Bool.or_true, Bool.toNat_true]
      omega
  refine ⟨⟨?_, ?_, keeps.ticking.ticks⟩, keeps.room, fun member => keeps.known (List.mem_of_mem_drop member)⟩
  · simp only [underWay, ServerState.readSignals, all]
    rw [sum]
    exact keeps.ticking.once
  · intro going noTerm
    simp only [ServerState.readSignals, all, Bool.or_eq_false_iff] at going
    simp only [underWay, ServerState.readSignals, all]
    rw [sum]
    apply keeps.ticking.goes going.1
    rw [← List.take_append_drop signalsSize s.pipe, List.mem_append, not_or]
    exact ⟨by simpa using going.2, noTerm⟩

theorem Keeps.ticked (keeps : s.Keeps) (timeout : s.server.timeout = true) (registry : Registry) :
    Keeps { s with
      server := { s.server with timeout := false, registry }, alarm := true, ticks := s.ticks + 1 } := by
  have once := keeps.ticking.once
  have ticks := keeps.ticking.ticks
  rw [underWay, timeout, Bool.toNat_true] at once
  have noAlarm : s.alarm.toNat = 0 := by omega
  have one : true.toNat + s.pipe.count .alarm + false.toNat = 1 := by
    simp only [Bool.toNat_true, Bool.toNat_false]
    omega
  refine ⟨⟨one.le, fun _ _ => one, ?_⟩, keeps.room, keeps.known⟩
  simp only [Bool.toNat_true]
  omega

theorem of_server (taken : s.act (.server step) = some (.ok s')) :
    s.Receives step ∧ ∃ server, s.server.act step = some (.ok server) ∧ s' = s.after step server := by
  simp only [Signalled.act] at taken
  split at taken
  · rename_i receives
    obtain ⟨outcome, acted, same⟩ := Option.map_eq_some_iff.mp taken
    cases outcome with
    | error fault => cases same
    | ok server =>
      cases same
      exact ⟨receives, server, acted, rfl⟩
  · cases taken

/-- Only a step that reads the pipe takes from it. -/
theorem after_same (timer : ∀ now, step ≠ .timer now) (reads : s.server.reads step = false) (server : ServerState) :
    s.after step server = { s with server } := by
  cases step with
  | timer now => exact absurd rfl (timer now)
  | event answers =>
    simp only [after, reads]
    rfl
  | wait | append | take | finish | unlock => rfl

theorem Keeps.server (keeps : s.Keeps) (taken : s.act (.server step) = some (.ok s')) : s'.Keeps := by
  obtain ⟨receives, server, acted, rfl⟩ := of_server taken
  cases ServerState.turn_of_act acted with
  | timer idle handled timeout registry => exact keeps.ticked timeout registry
  | @signals event rest answers idle head pipe =>
    have reads : s.server.reads (.event answers) = true := by
      simp only [ServerState.reads, idle, head]
      exact pipe
    have all := receives reads
    simp only [after, reads, if_true]
    exact keeps.received all _
  | @event event rest answers idle head other https registry main =>
    have silent : s.server.reads (.event answers) = false := by
      simp only [ServerState.reads, idle, head]
      exact other
    rw [after_same (fun _ same => ServerStep.noConfusion same) silent]
    exact keeps.same rfl rfl
  | wait | append | take | finish | unlock =>
    rw [after_same (fun _ same => ServerStep.noConfusion same) rfl]
    exact keeps.same rfl rfl

theorem Keeps.next (keeps : s.Keeps) (taken : s.act step = some (.ok s')) : s'.Keeps := by
  match step with
  | .server step => exact keeps.server taken
  | .signal .alarm =>
    simp only [Signalled.act] at taken
    split at taken
    · rename_i set
      cases taken
      exact keeps.alarmed set
    · cases taken
  | .signal .term =>
    cases taken
    exact keeps.termed
  | .signal .other => cases taken

theorem reachable_keeps (reachable : signalSystem.Reachable allowed s) : s.Keeps := by
  refine reachable.invariant Keeps ?_ fun _ _ _ keeps _ taken => keeps.next taken
  rintro s ⟨listenFd, pipeFd, capacity, now, room, _, some_, _, rfl⟩
  exact ⟨⟨le_rfl, fun _ _ => rfl, rfl⟩, some_, by simp [start]⟩

end Signalled

/-- The chain of alarms and ticks never breaks and never doubles, whenever the signals come, as long as the program
is not asked to stop. -/
theorem ticking_of_reachable {s : Signalled} (reachable : signalSystem.Reachable (fun _ _ => True) s) : s.Ticking :=
  (Signalled.reachable_keeps reachable).ticking

/-- The handling of one alarm. -/
def alarmHandled : List SignalledStep :=
  [.signal .alarm, .server (.wait [⟨4, false, true, false⟩]), .server (.event ⟨-1, [], [], [.alarm], 0⟩),
    .server (.timer 5), .signal .alarm]

/-- The next alarm comes while the loop is not waiting. -/
theorem alarmHandled_ticking : ∃ s : Signalled, s.ticks = 1 ∧ s.alarms = 2 ∧ s.pipe = [.alarm] ∧ s.Ticking := by
  have checked : ((System.Reachable.follow Signalled.act (fun _ _ => true) (.start 3 4 1 0 1)
      alarmHandled).any fun s =>
      s.ticks == 1 && s.alarms == 2 && s.pipe == [.alarm]) = true := by decide +kernel
  obtain ⟨s, followed, state⟩ := (Option.any_eq_true ..).mp checked
  rw [Bool.and_eq_true, Bool.and_eq_true, beq_iff_eq, beq_iff_eq, beq_iff_eq] at state
  obtain ⟨⟨ticks, alarms⟩, pipe⟩ := state
  exact ⟨s, ticks, alarms, pipe, ticking_of_reachable (System.Reachable.followed
    (.init ⟨3, 4, 1, 0, 1, Nat.one_pos, Nat.one_pos, by decide, rfl⟩) (fun _ _ _ _ => trivial)
      (fun _ _ _ => id) followed)⟩

end WSlyh.Server
