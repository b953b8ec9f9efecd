import WSlyh.Lib.Abstraction

/-! A station: jobs queue for one server, which takes them first come, first served. -/

namespace Lib

structure Station (Job : Type u) where
  waiting : List Job
  serving : Option Job

inductive Service (Job : Type u)
  | arrive (job : Job)
  | begin (job : Job)
  | finish (job : Job)
  deriving DecidableEq, Repr

namespace Service

variable {Job : Type u}

def arrived : Service Job → Option Job
  | .arrive job => some job
  | _ => none

def begun : Service Job → Option Job
  | .begin job => some job
  | _ => none

def finished : Service Job → Option Job
  | .finish job => some job
  | _ => none

end Service

namespace Station

variable {Job : Type u} {capacity : Nat}

/-- What a service does to the station. Nobody comes in when `capacity` jobs wait. -/
def Serves (capacity : Nat) (station : Station Job) : Service Job → Station Job → Prop
  | .arrive job, station' => station.waiting.length < capacity ∧
      station' = { station with waiting := station.waiting ++ [job] }
  | .begin job, station' => station.serving = none ∧ station.waiting = job :: station'.waiting ∧
      station'.serving = some job
  | .finish job, station' => station.serving = some job ∧ station' = { station with serving := none }

end Station

def stationSystem (Job : Type u) (capacity : Nat) : System (Station Job) (Service Job) where
  init station := station = ⟨[], none⟩
  step := Station.Serves capacity

namespace Station

variable {Job : Type u} {capacity : Nat} {station station' : Station Job} {services : List (Service Job)}

/-- Nothing that has arrived is lost or overtaken, and one job at a time is served. -/
structure Accounts (capacity : Nat) (station : Station Job) (services : List (Service Job)) : Prop where
  arrived : services.filterMap Service.arrived = services.filterMap Service.begun ++ station.waiting
  begun : services.filterMap Service.begun = services.filterMap Service.finished ++ station.serving.toList
  room : station.waiting.length ≤ capacity

theorem Accounts.serves (accounts : station.Accounts capacity services)
    (serves : station.Serves capacity service station') :
    station'.Accounts capacity (services ++ [service]) := by
  obtain ⟨arrived, begun, room⟩ := accounts
  cases service with
  | arrive job =>
    obtain ⟨free, rfl⟩ := serves
    refine ⟨?_, ?_, ?_⟩
    · simp [List.filterMap_cons, Service.arrived, Service.begun, arrived]
    · simpa [List.filterMap_cons, Service.begun, Service.finished] using begun
    · rw [List.length_append]
      exact free
  | begin job =>
    obtain ⟨idle, head, busy⟩ := serves
    rw [idle] at begun
    refine ⟨?_, ?_, ?_⟩
    · simp [List.filterMap_cons, Service.arrived, Service.begun, arrived, head]
    · simpa [List.filterMap_cons, Service.begun, Service.finished, busy] using begun
    · rw [head, List.length_cons] at room
      exact Nat.le_of_succ_le room
  | finish job =>
    obtain ⟨busy, rfl⟩ := serves
    rw [busy] at begun
    refine ⟨?_, ?_, room⟩
    · simpa [List.filterMap_cons, Service.arrived, Service.begun] using arrived
    · simpa [List.filterMap_cons, Service.begun, Service.finished] using begun

theorem Accounts.run (accounts : station.Accounts capacity before)
    (run : (stationSystem Job capacity).Run station services station') :
    station'.Accounts capacity (before ++ services) := by
  induction services generalizing station before with
  | nil =>
    cases run
    rw [List.append_nil]
    exact accounts
  | cons service services ih =>
    obtain ⟨between, serves, rest⟩ := run
    have onward := ih (accounts.serves serves) rest
    rw [List.append_assoc] at onward
    exact onward

/-- The accounts of a station that has been empty. -/
theorem accounts_of_run (run : (stationSystem Job capacity).Run ⟨[], none⟩ services station) :
    station.Accounts capacity services :=
  have idle : (⟨[], none⟩ : Station Job).Accounts capacity [] := ⟨rfl, rfl, Nat.zero_le _⟩
  idle.run run

end Station

end Lib
