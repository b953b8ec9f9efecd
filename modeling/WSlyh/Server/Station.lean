import WSlyh.Lib.Station
import WSlyh.Server.Loop

/-! The pool that the event loop drives is the same station as the pool step by step. -/

namespace WSlyh.Server

open Http Lib

def Worker.task? : Worker → Option Int
  | .running task => some task
  | _ => none

namespace ServerState

def serving (s : ServerState) : Option Int := s.lock.bind fun worker => (s.workers worker).task?

def station (s : ServerState) : Station Int := ⟨s.tasks, s.serving⟩

def service (s : ServerState) : ServerStep → Option (Service Int)
  | .append _ =>
    match s.main with
    | .appending sockfd => some (.arrive sockfd)
    | .dispatching => none
  | .take _ => s.tasks.head?.map .begin
  | .finish worker _ => (s.workers worker).task?.map .finish
  | _ => none

/-- `main` is the only caller, so that the room it has seen is still there. -/
structure Roomy (s : ServerState) : Prop where
  exclusive : s.Exclusive
  within : s.tasks.length ≤ taskNum
  room : s.main ≠ .dispatching → s.tasks.length < taskNum

variable {s s' s₁ : ServerState}

theorem withRegistry_keepsMain {r : Except Fault Registry} (done : s₁.withRegistry r = .ok s')
    (same : s₁.main = s.main) :
    s'.main = s.main := by
  cases r with
  | error fault => cases done
  | ok registry =>
    obtain rfl := Except.ok.inj done
    exact same

theorem acceptClient_keepsMain {answers : Answers} (done : s.acceptClient answers = .ok s') : s'.main = s.main := by
  unfold acceptClient at done
  dsimp only at done
  split at done
  · cases done
    rfl
  split at done
  · cases done
    rfl
  split at done
  · cases done
  · exact withRegistry_keepsMain done rfl

/-- The event loop goes on to `Append` only with room in the queue. -/
theorem dispatch_main {event : Ready} {answers : Answers} (done : s.dispatch event answers = some (.ok s')) :
    s'.main = s.main ∨ s.tasks.length < taskNum := by
  unfold dispatch at done
  split at done
  · exact .inl (acceptClient_keepsMain (Option.some.inj done))
  split at done
  · exact .inl (withRegistry_keepsMain (Option.some.inj done) rfl)
  split at done
  · cases done
    exact .inl rfl
  split at done
  · unfold readable at done
    dsimp only at done
    split at done
    · cases done
    · split at done
      · exact .inl (withRegistry_keepsMain (Option.some.inj done) rfl)
      · rename_i room
        exact .inr (Nat.lt_of_not_le room)
    · exact .inl (withRegistry_keepsMain (Option.some.inj done) rfl)
  split at done
  · unfold writable at done
    dsimp only at done
    split at done
    · cases done
    · exact .inl (withRegistry_keepsMain (Option.some.inj done) rfl)
    · exact .inl (withRegistry_keepsMain (Option.some.inj done) rfl)
  · cases done
    exact .inl rfl

theorem SamePool.station (same : s.SamePool s') : s'.station = s.station := by
  rw [ServerState.station, ServerState.station, serving, serving, same.1, same.2.1, same.2.2]

/-- A step is a service to the station, or the pool stays as it is. -/
theorem Roomy.services (roomy : s.Roomy) (done : s.act step = some (.ok s')) :
    s'.Roomy ∧ ((s.service step = none ∧ s'.station = s.station) ∨ ∃ service, s.service step = some service ∧
      s.station.Serves taskNum service s'.station) := by
  have exclusive := roomy.exclusive.next done
  have unchanged (same : s.SamePool s') (main : s'.main = s.main ∨ s'.main = .dispatching) : s'.Roomy := by
    refine ⟨exclusive, by rw [same.2.2]; exact roomy.within, fun appending => ?_⟩
    rw [same.2.2]
    rcases main with main | main
    · exact roomy.room (main ▸ appending)
    · exact absurd main appending
  cases step with
  | wait events =>
    simp only [act] at done
    split at done
    · cases done
      exact ⟨unchanged ⟨rfl, rfl, rfl⟩ (.inl rfl), .inl ⟨rfl, rfl⟩⟩
    · cases done
  | event answers =>
    simp only [act] at done
    split at done
    · rename_i _ event events _ _
      have same : SamePool { s with events := events } s' := dispatch_samePool done
      refine ⟨?_, .inl ⟨rfl, same.station⟩⟩
      rcases dispatch_main done with kept | room
      · exact unchanged same (.inl kept)
      · exact ⟨exclusive, by rw [same.2.2]; exact roomy.within, fun _ => by rw [same.2.2]; exact room⟩
    · cases done
  | append now =>
    simp only [act] at done
    split at done
    · rename_i sockfd main
      have room : s.tasks.length < taskNum := roomy.room (by rw [main]; exact MainThread.noConfusion)
      split at done
      · have same : SamePool { s with tasks := s.tasks ++ [sockfd], main := .dispatching } s' :=
          withRegistry_samePool (Option.some.inj done) ⟨rfl, rfl, rfl⟩
        have idle : s'.main = .dispatching :=
          withRegistry_keepsMain (s := { s with main := .dispatching }) (Option.some.inj done) rfl
        refine ⟨⟨exclusive, ?_, fun appending => absurd idle appending⟩, .inr ⟨.arrive sockfd, ?_, room, same.station⟩⟩
        · rw [same.2.2, List.length_append]
          exact room
        · rw [service, main]
      · cases done
    · cases done
  | timer now =>
    simp only [act] at done
    split at done
    · have same : s.SamePool s' := withRegistry_samePool (Option.some.inj done) ⟨rfl, rfl, rfl⟩
      have main : s'.main = s.main := withRegistry_keepsMain (Option.some.inj done) rfl
      exact ⟨unchanged same (.inl main), .inl ⟨rfl, same.station⟩⟩
    · cases done
  | take worker =>
    simp only [act] at done
    split at done
    · rename_i task later queue
      split at done
      · rename_i ready
        cases done
        have fewer : later.length < s.tasks.length := by
          rw [queue]
          exact Nat.lt_succ_self _
        refine ⟨⟨exclusive, fewer.le.trans roomy.within, fun appending => fewer.trans (roomy.room appending)⟩,
          .inr ⟨.begin task, by rw [service, queue]; rfl, ?_, queue, ?_⟩⟩
        · rw [station, serving, ready.1]
          rfl
        · change (Function.update s.workers worker (.running task) worker).task? = some task
          rw [Function.update_self]
          rfl
      · cases done
    · cases done
  | finish worker answer =>
    simp only [act] at done
    split at done
    · rename_i task running
      split at done
      · cases done
      · cases done
        have locked := roomy.exclusive worker (by rw [running]; exact Worker.noConfusion)
        refine ⟨⟨exclusive, roomy.within, roomy.room⟩, .inr ⟨.finish task, by rw [service, running]; rfl, ?_, ?_⟩⟩
        · rw [station, serving, locked]
          exact congrArg Worker.task? running
        · change Station.mk s.tasks
            (s.lock.bind fun other => (Function.update s.workers worker .returning other).task?) =
            ⟨s.tasks, none⟩
          rw [locked, Option.bind_some, Function.update_self]
          rfl
    · cases done
  | unlock worker =>
    simp only [act] at done
    split at done
    · rename_i returning
      cases done
      have locked := roomy.exclusive worker (by rw [returning]; exact Worker.noConfusion)
      refine ⟨⟨exclusive, roomy.within, roomy.room⟩, .inl ⟨rfl, ?_⟩⟩
      rw [station, station, serving, serving, locked, Option.bind_some, returning]
      rfl
    · cases done

/-- The pool that the event loop drives is a station with room for `taskNum` descriptors. -/
theorem abstracts : Abstracts serverSystem (stationSystem Int taskNum) Roomy station service := by
  refine ⟨?_, fun s step s' roomy done => (roomy.services done).1, fun s step s' roomy done quiet => ?_,
    fun s step s' shown roomy done seen => ?_⟩
  · rintro _ ⟨_, _, _, _, _, rfl⟩
    exact ⟨⟨fun _ busy => absurd rfl busy, Nat.zero_le _, fun appending => absurd rfl appending⟩, rfl⟩
  · rcases (roomy.services done).2 with ⟨_, same⟩ | ⟨_, some_, _⟩
    · exact same
    · rw [quiet] at some_
      cases some_
  · rcases (roomy.services done).2 with ⟨none_, _⟩ | ⟨_, some_, serves⟩
    · rw [seen] at none_
      cases none_
    · rw [seen] at some_
      exact Option.some.inj some_ ▸ serves

end ServerState

/-- In every run of the server, whatever its workers and clients do, the descriptors that `main` queues are parsed
one by one in that order, and no more than `taskNum` of them wait. -/
theorem parsesInTurn_of_observed {steps : List ServerStep} {services : List (Service Int)} {s s' : ServerState}
    (start : serverSystem.init s) (observed : serverSystem.Observed ServerState.service s steps services s') :
    (stationSystem Int taskNum).Run ⟨[], none⟩ services s'.station ∧ s'.station.Accounts taskNum services := by
  obtain ⟨empty, run⟩ := ServerState.abstracts.trace start observed
  rw [show s.station = ⟨[], none⟩ from empty] at run
  exact ⟨run, Station.accounts_of_run run⟩

/-- Two clients have sent something, and the request of the first is being parsed. -/
def twoClients : List ServerStep :=
  [.wait [⟨3, false, true, false⟩], .event ⟨10, [], [], [], 0⟩,
    .wait [⟨3, false, true, false⟩], .event ⟨11, [], [], [], 0⟩,
    .wait [⟨10, false, true, false⟩, ⟨11, false, true, false⟩], .event ⟨-1, [.received [71]], [], [], 1⟩, .append 1,
    .take 4, .event ⟨-1, [.received [71]], [], [], 1⟩]

theorem twoClients_inTurn : ∃ s : ServerState, s.station = ⟨[], some 10⟩ ∧ s.main = .appending 11 ∧
    s.station.Accounts taskNum [.arrive 10, .begin 10] := by
  have checked : ((System.observe ServerState.act ServerState.service (.start 3 5 1000 0) twoClients).any fun seen =>
      seen.1 == [.arrive 10, .begin 10] && seen.2.tasks == [] && seen.2.serving == some 10 &&
        seen.2.main == .appending 11) = true := by
    decide +kernel
  obtain ⟨⟨services, s⟩, observed, state⟩ := (Option.any_eq_true ..).mp checked
  simp only [Bool.and_eq_true, beq_iff_eq] at state
  obtain ⟨⟨⟨rfl, tasks⟩, serving⟩, main⟩ := state
  have serves := parsesInTurn_of_observed ⟨3, 5, 1000, 0, by decide, rfl⟩
    (System.Observed.of_observe (fun _ _ _ => id) observed)
  exact ⟨s, by rw [ServerState.station, tasks, serving], main, serves.2⟩

end WSlyh.Server
