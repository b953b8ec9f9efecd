import WSlyh.Lib.Transition
import WSlyh.Server.Registry

/-! The event loop of `main` and the workers of its pool. -/

namespace WSlyh.Server

open Http Lib

def maxEventNumber : Nat := 10000
def taskNum : Nat := 100

/-- An entry of the array that `epoll_wait` fills; `hup` stands for any of `EPOLLRDHUP`,
`EPOLLHUP` and `EPOLLERR`. -/
structure Ready where
  fd : Int
  hup : Bool
  epollIn : Bool
  epollOut : Bool
  deriving DecidableEq, Repr

inductive Signal
  | alarm | term | other
  deriving DecidableEq, Repr

/-- What the calls return that the handling of one event may make: `accept`, `recv` and
`writev` on the connection, `recv` on the pipe, and `time`. -/
structure Answers where
  connfd : Int
  received : List RecvResult
  written : List WritevResult
  signals : List Signal
  now : Int

/-- A worker holds the lock of the pool from the time it takes a task. -/
inductive Worker
  | waiting
  | running (task : Int)
  | returning
  deriving DecidableEq, Repr

/-- `main` is between two events, or in `Append`, past the check of the queue's size. -/
inductive MainThread
  | dispatching
  | appending (sockfd : Int)
  deriving DecidableEq, Repr

/-- `events` are the delivered events that are not handled yet, `lock` is the worker that
holds the lock of the pool. -/
structure ServerState where
  registry : Registry
  https : Int → CHttp
  tasks : List Int
  lock : Option Nat
  workers : Nat → Worker
  main : MainThread
  events : List Ready
  timeout : Bool
  stopServer : Bool
  listenFd : Int
  pipeFd : Int

inductive ServerStep
  | wait (events : List Ready)
  | event (answers : Answers)
  | append (now : Int)
  | timer (now : Int)
  | take (worker : Nat)
  | finish (worker : Nat) (answer : FileAnswer)
  | unlock (worker : Nat)

/-- The reading of the clock that a step may take. -/
def ServerStep.reading : ServerStep → Option Int
  | .event answers => some answers.now
  | .append now | .timer now => some now
  | _ => none

def ServerState.start (listenFd pipeFd : Int) (capacity : Nat) (now : Int) : ServerState where
  registry := .start capacity now
  https _ := default
  tasks := []
  lock := none
  workers _ := .waiting
  main := .dispatching
  events := []
  timeout := false
  stopServer := false
  listenFd := listenFd
  pipeFd := pipeFd

namespace ServerState

def setHttp (s : ServerState) (fd : Int) (conn : CHttp) : ServerState :=
  { s with https := Function.update s.https fd conn }

def perform (s : ServerState) (effects : List Effect) : ServerState :=
  { s with registry := effects.foldl Registry.perform s.registry }

/-- Go on with the registry that a part of `main` leaves. -/
def withRegistry (s : ServerState) (registry : Except Fault Registry) : Except Fault ServerState := do
  let registry ← registry
  .ok { s with registry }

/-- The branch of the listening socket. `SendInfo` closes a connection for which there is no
room. -/
def acceptClient (s : ServerState) (answers : Answers) : Except Fault ServerState :=
  let connfd := answers.connfd
  if connfd < 0 then .ok s
  else
    let s := { s with registry := s.registry.opened connfd }
    if s.registry.httpCnt ≥ maxFd then .ok { s with registry := s.registry.close connfd }
    else if connfd ≥ maxFd then .error (.memory .outOfBounds)
    else
      let (conn, effects) := (s.https connfd).init connfd 0
      let s := (s.setHttp connfd conn).perform effects
      s.withRegistry ((s.registry.register connfd answers.now).mapError .memory)

/-- The branch of the pipe. -/
def readSignals (s : ServerState) (answers : Answers) : ServerState :=
  { s with
    timeout := s.timeout || answers.signals.contains .alarm
    stopServer := s.stopServer || answers.signals.contains .term }

def renew (s : ServerState) (sockfd now : Int) : Except Fault ServerState :=
  s.withRegistry ((s.registry.renew sockfd now).mapError .memory)

/-- The branch of `EPOLLIN`. `Append` looks at the size of the queue without the lock; what it
returns is ignored. -/
def readable (s : ServerState) (sockfd : Int) (answers : Answers) : Option (Except Fault ServerState) :=
  let (conn, ret) := (s.https sockfd).read answers.received
  let s := s.setHttp sockfd conn
  match ret with
  | none => none
  | some true =>
    if s.tasks.length ≥ taskNum then some (s.renew sockfd answers.now)
    else some (.ok { s with main := .appending sockfd })
  | some false => some (s.withRegistry (s.registry.readFailed sockfd))

/-- The branch of `EPOLLOUT`. -/
def writable (s : ServerState) (sockfd : Int) (answers : Answers) : Option (Except Fault ServerState) :=
  let run := (s.https sockfd).write answers.written
  let s := (s.setHttp sockfd run.conn).perform run.effects
  match run.ret with
  | none => none
  | some true => some (s.renew sockfd answers.now)
  | some false => some (s.withRegistry (s.registry.writeFailed sockfd))

def dispatch (s : ServerState) (event : Ready) (answers : Answers) : Option (Except Fault ServerState) :=
  if event.fd = s.listenFd then some (s.acceptClient answers)
  else if event.hup then some (s.withRegistry (s.registry.hangUp event.fd))
  else if event.fd = s.pipeFd ∧ event.epollIn then some (.ok (s.readSignals answers))
  else if event.epollIn then s.readable event.fd answers
  else if event.epollOut then s.writable event.fd answers
  else some (.ok s)

/-- A step that is not enabled gives `none`. `epoll_wait` comes after the timers have been
handled; a call of it that is interrupted delivers no events. -/
def act (s : ServerState) : ServerStep → Option (Except Fault ServerState)
  | .wait events =>
    if s.main = .dispatching ∧ s.events = [] ∧ s.timeout = false ∧ s.stopServer = false ∧
        events.length ≤ maxEventNumber then
      some (.ok { s with registry := s.registry.disarm (events.map Ready.fd), events })
    else none
  | .event answers =>
    match s.main, s.events with
    | .dispatching, event :: events => { s with events }.dispatch event answers
    | _, _ => none
  | .append now =>
    match s.main with
    | .appending sockfd =>
      if s.lock = none then
        some ({ s with tasks := s.tasks ++ [sockfd], main := .dispatching }.renew sockfd now)
      else none
    | .dispatching => none
  | .timer now =>
    if s.main = .dispatching ∧ s.events = [] ∧ s.timeout = true then
      some ({ s with timeout := false }.withRegistry ((s.registry.tick now).mapError .memory))
    else none
  | .take worker =>
    match s.tasks with
    | task :: tasks =>
      if s.lock = none ∧ s.workers worker = .waiting then
        some (.ok { s with
          tasks, lock := some worker, workers := Function.update s.workers worker (.running task) })
      else none
    | [] => none
  | .finish worker answer =>
    match s.workers worker with
    | .running task =>
      match (s.https task).httpParseTask answer with
      | .error exception => some (.error (.terminated exception))
      | .ok (conn, effects) =>
        some (.ok { (s.setHttp task conn).perform effects with
          workers := Function.update s.workers worker .returning })
    | _ => none
  | .unlock worker =>
    if s.workers worker = .returning then
      some (.ok { s with lock := none, workers := Function.update s.workers worker .waiting })
    else none

end ServerState

/-- The runs of the program, with a timer heap of any capacity from 1 on. -/
def serverSystem : System ServerState ServerStep where
  init s := ∃ listenFd pipeFd capacity now, 0 < capacity ∧ s = .start listenFd pipeFd capacity now
  step s step s' := s.act step = some (.ok s')

namespace ServerState

variable {s s' s₁ : ServerState}

/-- The event loop leaves the pool alone. -/
def SamePool (s s' : ServerState) : Prop := s'.lock = s.lock ∧ s'.workers = s.workers ∧ s'.tasks = s.tasks

theorem withRegistry_samePool {r : Except Fault Registry} (done : s₁.withRegistry r = .ok s') (same : s.SamePool s₁) :
    s.SamePool s' := by
  cases r with
  | error fault => cases done
  | ok registry =>
    obtain rfl := Except.ok.inj done
    exact same

theorem acceptClient_samePool {answers : Answers} (done : s.acceptClient answers = .ok s') : s.SamePool s' := by
  unfold acceptClient at done
  dsimp only at done
  split at done
  · cases done
    exact ⟨rfl, rfl, rfl⟩
  split at done
  · cases done
    exact ⟨rfl, rfl, rfl⟩
  split at done
  · cases done
  · exact withRegistry_samePool done ⟨rfl, rfl, rfl⟩

theorem dispatch_samePool {event : Ready} {answers : Answers} (done : s.dispatch event answers = some (.ok s')) :
    s.SamePool s' := by
  unfold dispatch at done
  split at done
  · exact acceptClient_samePool (Option.some.inj done)
  split at done
  · exact withRegistry_samePool (Option.some.inj done) ⟨rfl, rfl, rfl⟩
  split at done
  · cases done
    exact ⟨rfl, rfl, rfl⟩
  split at done
  · unfold readable at done
    dsimp only at done
    split at done
    · cases done
    · split at done
      · exact withRegistry_samePool (Option.some.inj done) ⟨rfl, rfl, rfl⟩
      · cases done
        exact ⟨rfl, rfl, rfl⟩
    · exact withRegistry_samePool (Option.some.inj done) ⟨rfl, rfl, rfl⟩
  split at done
  · unfold writable at done
    dsimp only at done
    split at done
    · cases done
    · exact withRegistry_samePool (Option.some.inj done) ⟨rfl, rfl, rfl⟩
    · exact withRegistry_samePool (Option.some.inj done) ⟨rfl, rfl, rfl⟩
  · cases done
    exact ⟨rfl, rfl, rfl⟩

/-- A worker that does not wait holds the lock. -/
def Exclusive (s : ServerState) : Prop := ∀ worker, s.workers worker ≠ .waiting → s.lock = some worker

theorem SamePool.exclusive (same : s.SamePool s') (exclusive : s.Exclusive) : s'.Exclusive := by
  unfold Exclusive
  rw [same.1, same.2.1]
  exact exclusive

theorem Exclusive.next (exclusive : s.Exclusive) (done : s.act step = some (.ok s')) : s'.Exclusive := by
  cases step with
  | wait events =>
    simp only [act] at done
    split at done
    · cases done
      exact exclusive
    · cases done
  | event answers =>
    simp only [act] at done
    split at done
    · exact (dispatch_samePool done).exclusive exclusive
    · cases done
  | append now =>
    simp only [act] at done
    split at done
    · split at done
      · exact (withRegistry_samePool (Option.some.inj done) ⟨rfl, rfl, rfl⟩).exclusive exclusive
      · cases done
    · cases done
  | timer now =>
    simp only [act] at done
    split at done
    · exact (withRegistry_samePool (Option.some.inj done) ⟨rfl, rfl, rfl⟩).exclusive exclusive
    · cases done
  | take worker =>
    simp only [act] at done
    split at done
    · split at done
      · rename_i ready
        cases done
        intro other busy
        by_cases same : other = worker
        · rw [same]
        · have before := exclusive other fun waits => busy ((Function.update_of_ne same ..).trans waits)
          rw [ready.1] at before
          cases before
      · cases done
    · cases done
  | finish worker answer =>
    simp only [act] at done
    split at done
    · rename_i task running
      split at done
      · cases done
      · cases done
        intro other busy
        by_cases same : other = worker
        · rw [same]
          exact exclusive worker (by rw [running]; exact Worker.noConfusion)
        · exact exclusive other fun waits => busy ((Function.update_of_ne same ..).trans waits)
    · cases done
  | unlock worker =>
    simp only [act] at done
    split at done
    · rename_i returning
      cases done
      have locked := exclusive worker (by rw [returning]; exact Worker.noConfusion)
      intro other busy
      by_cases same : other = worker
      · rw [same] at busy
        exact absurd (Function.update_self ..) busy
      · have before := exclusive other fun waits => busy ((Function.update_of_ne same ..).trans waits)
        exact absurd (Option.some.inj (before.symm.trans locked)) same
    · cases done

theorem reachable_exclusive (reachable : serverSystem.Reachable allowed s) : s.Exclusive :=
  reachable.invariant Exclusive (fun _ ⟨_, _, _, _, _, same⟩ => same ▸ fun _ busy => absurd rfl busy)
    fun _ _ _ exclusive _ done => exclusive.next done

end ServerState

end WSlyh.Server
