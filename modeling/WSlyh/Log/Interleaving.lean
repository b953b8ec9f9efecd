import WSlyh.Lib.Transition
import WSlyh.Log.Sections

/-! Any number of producers and the one consumer. A producer checks the throttle, sets the
time of the last failure back without the lock, and then runs its locked section; the
consumer's round has a locked check, an unlocked write and a locked clear. -/

namespace WSlyh.Log

open Libc Lib

inductive Producer
  | idle
  | passed (curSec : Nat) (logLine : Bytes)
  | locking (curSec : Nat) (logLine : Bytes)
  deriving DecidableEq

inductive Consumer
  | checking | persisting | clearing
  deriving DecidableEq

/-- `persisted` is what the log file holds; `accepted` are the records that came to `Append`,
in the order in which their producers held the lock. -/
structure LogState where
  log : CRingLog
  producers : Nat → Producer
  consumer : Consumer
  persisted : Bytes
  accepted : List Bytes

/-- `opened` is what `DecisFile` returns. -/
inductive LogStep
  | enter (producer curSec : Nat) (logLine : Bytes)
  | unthrottle (producer : Nat)
  | append (producer : Nat)
  | check
  | persist (opened : Bool)
  | clear

def LogState.setProducer (s : LogState) (producer : Nat) (state : Producer) : LogState :=
  { s with producers := Function.update s.producers producer state }

/-- A step that is not enabled gives `none`. Records are no longer than a cell, and cells
can be allocated. -/
def LogState.act (s : LogState) : LogStep → Option (Except Fault LogState)
  | .enter producer curSec logLine =>
    if s.producers producer = .idle ∧ logLine.length ≤ s.log.oneBuffLen then
      if s.log.throttled curSec then some (.ok s)
      else some (.ok (s.setProducer producer (.passed curSec logLine)))
    else none
  | .unthrottle producer =>
    match s.producers producer with
    | .passed curSec logLine =>
      some (.ok ({ s with log := { s.log with lastLogFailTime := 0 } }.setProducer producer
        (.locking curSec logLine)))
    | _ => none
  | .append producer =>
    match s.producers producer with
    | .locking curSec logLine =>
      some do
        let (log, accepted) ← s.log.appendLocked curSec logLine .succeeds
        .ok ({ s with
          log
          accepted := if accepted then s.accepted ++ [logLine] else s.accepted }.setProducer producer .idle)
    | _ => none
  | .check =>
    if s.consumer = .checking then
      some do
        let (log, go) ← s.log.checkLocked
        .ok { s with log, consumer := if go then .persisting else .checking }
    else none
  | .persist opened =>
    if s.consumer = .persisting then
      if opened then some (.ok { s with
        persisted := s.persisted ++ (s.log.cell s.log.prstBuf).persist
        consumer := .clearing })
      else some (.ok { s with consumer := .checking })
    else none
  | .clear =>
    if s.consumer = .clearing then
      some do
        let log ← s.log.clearLocked
        .ok { s with log, consumer := .checking }
    else none

/-- The start of the program. -/
def LogState.start (log : CRingLog) : LogState where
  log := log
  producers _ := .idle
  consumer := .checking
  persisted := []
  accepted := []

/-- The runs of the program from a log of which `start` holds. -/
def logSystem (start : CRingLog → Prop) : System LogState LogStep where
  init s := ∃ log, start log ∧ s = .start log
  step s step s' := s.act step = some (.ok s')

/-- A ring of at least two cells in which nothing is full and nothing is written. -/
def CRingLog.Started (log : CRingLog) : Prop := ∃ cells, log.Shape [] cells ∧ log.contents cells = []

def Producer.fits (state : Producer) (len : Nat) : Prop :=
  match state with
  | .idle => True
  | .passed _ logLine | .locking _ logLine => logLine.length ≤ len

/-- What every reachable state keeps: the shape of the ring, a full cell at `m_pPrstBuf`
while the consumer works on it, and records that fit. -/
structure LogState.Keeps (s : LogState) (full free : List CellPtr) : Prop where
  shape : s.log.Shape full free
  busy : s.consumer ≠ .checking → full ≠ []
  fits : ∀ producer, (s.producers producer).fits s.log.oneBuffLen

theorem fits_update {producers : Nat → Producer} (fits : ∀ producer, (producers producer).fits len)
    (producer : Nat) (state : Producer) (new : state.fits len) (other : Nat) :
    (Function.update producers producer state other).fits len := by
  by_cases same : other = producer
  · rw [same, Function.update_self]
    exact new
  · rw [Function.update_of_ne same]
    exact fits other

theorem CRingLog.Shape.unthrottle {log : CRingLog} (shape : log.Shape full free) :
    { log with lastLogFailTime := 0 }.Shape full free :=
  ⟨shape.links.point log.curBuf 0, shape.marks.point log.curBuf 0, shape.cur⟩

/-- The bytes that are in the ring and not yet in the file. -/
def LogState.pending (s : LogState) (cells : List CellPtr) : Bytes :=
  s.log.contents (if s.consumer = .clearing then cells.tail else cells)

/-- The step is not a locked section that reaches the memory limit in second 0 of the clock. -/
def LogState.Harmless (s : LogState) (step : LogStep) : Prop :=
  ∀ producer curSec logLine, step = .append producer → s.producers producer = .locking curSec logLine →
    ¬ (s.log.Overflows logLine ∧ curSec = 0)

/-- All that the proofs need to know about a step from a state that keeps its shape. -/
structure LogState.Next (s : LogState) (full free : List CellPtr) (step : LogStep) (s' : LogState)
    (full' free' : List CellPtr) : Prop where
  keeps : s'.Keeps full' free'
  count : (full' ++ free').length + s.log.buffCnt = (full ++ free).length + s'.log.buffCnt
  journal : s.Harmless step → ∃ records, s'.accepted = s.accepted ++ records ∧
    s'.persisted ++ s'.pending (full' ++ free') =
      s.persisted ++ s.pending (full ++ free) ++ records.flatten

namespace LogState

variable {s : LogState} {full free : List CellPtr}

theorem Keeps.enter (keeps : s.Keeps full free) (producer curSec : Nat) (logLine : Bytes)
    (fits : logLine.length ≤ s.log.oneBuffLen) :
    s.Next full free (.enter producer curSec logLine) (s.setProducer producer (.passed curSec logLine)) full free :=
  ⟨⟨keeps.shape, keeps.busy, fits_update keeps.fits producer _ fits⟩, rfl, fun _ => ⟨[], by simp [setProducer],
    (List.append_nil _).symm⟩⟩

theorem Keeps.unthrottle (keeps : s.Keeps full free) (passed : s.producers producer = .passed curSec logLine) :
    s.Next full free (.unthrottle producer)
      ({ s with log := { s.log with lastLogFailTime := 0 } }.setProducer producer (.locking curSec logLine))
      full free := by
  have fits := keeps.fits producer
  rw [passed] at fits
  refine ⟨⟨keeps.shape.unthrottle, keeps.busy, fits_update keeps.fits producer _ fits⟩, rfl,
    fun _ => ⟨[], by simp [setProducer], ?_⟩⟩
  rw [List.flatten_nil, List.append_nil]
  rfl

theorem Keeps.append (keeps : s.Keeps full free) (locking : s.producers producer = .locking curSec logLine)
    (enabled : s.act (.append producer) = some result) :
    ∃ s' full' free', result = .ok s' ∧ s.Next full free (.append producer) s' full' free' := by
  have fits := keeps.fits producer
  rw [locking] at fits
  obtain ⟨log', accepted, more, free', done, advances, writes⟩ := keeps.shape.appendLocked fits curSec
  simp only [act, locking, done, bind, Except.bind] at enabled
  refine ⟨_, full ++ more, free', (Option.some.inj enabled).symm, ⟨advances.shape, fun working => ?_, ?_⟩, ?_, ?_⟩
  · have := keeps.busy working
    simp [this]
  · intro other
    have fitsHere := fits_update keeps.fits producer .idle trivial other
    rw [← advances.oneBuffLen] at fitsHere
    exact fitsHere
  · have count := advances.count
    simp only [setProducer, List.length_append] at count ⊢
    omega
  · intro harmless
    obtain ⟨data, contents⟩ := writes (harmless producer curSec logLine rfl locking)
    have written : (if accepted then [logLine] else []).flatten = if accepted then logLine else [] := by
      cases accepted <;> simp
    refine ⟨if accepted then [logLine] else [], by cases accepted <;> simp [setProducer], ?_⟩
    rw [written]
    simp only [setProducer, pending, List.append_assoc]
    by_cases clearing : s.consumer = .clearing
    · obtain ⟨first, rest, rfl⟩ := List.exists_cons_of_ne_nil (keeps.busy (by simp [clearing]))
      rw [if_pos clearing, if_pos clearing, List.cons_append, List.cons_append, List.tail_cons, List.tail_cons,
        CRingLog.contents_append, contents, CRingLog.contents_append,
        CRingLog.contents_congr fun cell member => data cell (List.mem_cons_of_mem _ member), List.append_assoc]
    · rw [if_neg clearing, if_neg clearing, CRingLog.contents_append, contents, CRingLog.contents_append,
        CRingLog.contents_congr data, List.append_assoc]

theorem Keeps.check (keeps : s.Keeps full free) (checking : s.consumer = .checking)
    (enabled : s.act .check = some result) :
    ∃ s' full' free', result = .ok s' ∧ s.Next full free .check s' full' free' := by
  obtain ⟨log', go, full', free', done, shape, cells, data, oneBuffLen, buffCnt, goes⟩ := keeps.shape.checkLocked
  simp only [LogState.act, checking, done, bind, Except.bind, if_true] at enabled
  have notClearing : (if go then Consumer.persisting else .checking) ≠ .clearing := by cases go <;> simp
  refine ⟨_, full', free', (Option.some.inj enabled).symm, ⟨shape, fun working => goes ?_, ?_⟩, ?_,
    fun _ => ⟨[], by simp, ?_⟩⟩
  · cases go with
    | true => rfl
    | false => exact absurd rfl working
  · intro producer
    have fits := keeps.fits producer
    rw [← oneBuffLen] at fits
    exact fits
  · rw [cells]
    simp only [buffCnt]
  · simp only [pending, checking, if_neg notClearing, cells, List.flatten_nil, List.append_nil, reduceCtorEq,
      if_false]
    rw [CRingLog.contents_congr fun cell _ => data cell]

theorem Keeps.persist (keeps : s.Keeps full free) (persisting : s.consumer = .persisting) (opened : Bool)
    (enabled : s.act (.persist opened) = some result) :
    ∃ s' full' free', result = .ok s' ∧ s.Next full free (.persist opened) s' full' free' := by
  simp only [LogState.act, persisting, if_true] at enabled
  cases opened with
  | false =>
    refine ⟨_, full, free, (Option.some.inj enabled).symm, ⟨keeps.shape, by simp, keeps.fits⟩, rfl,
      fun _ => ⟨[], by simp, ?_⟩⟩
    simp [pending, persisting]
  | true =>
    have working := keeps.busy (by simp [persisting])
    obtain ⟨first, rest, rfl⟩ := List.exists_cons_of_ne_nil working
    have start : first = s.log.prstBuf := Option.some.inj keeps.shape.links.ring.head
    refine ⟨_, first :: rest, free, (Option.some.inj enabled).symm, ⟨keeps.shape, fun _ => working, keeps.fits⟩, rfl,
      fun _ => ⟨[], by simp, ?_⟩⟩
    simp [pending, persisting, start, CBufferCell.persist]

theorem Keeps.clear (keeps : s.Keeps full free) (clearing : s.consumer = .clearing)
    (enabled : s.act .clear = some result) :
    ∃ s' full' free', result = .ok s' ∧ s.Next full free .clear s' full' free' := by
  obtain ⟨first, rest, rfl⟩ := List.exists_cons_of_ne_nil (keeps.busy (by simp [clearing]))
  obtain ⟨log', done, shape, contents, oneBuffLen, buffCnt⟩ := keeps.shape.clearLocked
  simp only [LogState.act, clearing, done, bind, Except.bind, if_true] at enabled
  refine ⟨_, rest, free ++ [first], (Option.some.inj enabled).symm, ⟨shape, by simp, ?_⟩, ?_,
    fun _ => ⟨[], by simp, ?_⟩⟩
  · intro producer
    have fits := keeps.fits producer
    rw [← oneBuffLen] at fits
    exact fits
  · simp only [buffCnt, List.length_append, List.length_cons, List.length_nil]
    omega
  · rw [← List.append_assoc]
    simp only [pending, clearing, reduceCtorEq, if_false, if_true, contents]
    simp

/-- A step from a state that keeps its shape raises no fault, and the shape is kept. -/
theorem Keeps.act (keeps : s.Keeps full free) (enabled : s.act step = some result) :
    ∃ s' full' free', result = .ok s' ∧ s.Next full free step s' full' free' := by
  cases step with
  | enter producer curSec logLine =>
    simp only [LogState.act] at enabled
    split at enabled
    · rename_i ready
      split at enabled
      · exact ⟨s, full, free, (Option.some.inj enabled).symm, keeps, rfl, fun _ => ⟨[], by simp⟩⟩
      · exact ⟨_, full, free, (Option.some.inj enabled).symm, keeps.enter producer curSec logLine ready.2⟩
    · cases enabled
  | unthrottle producer =>
    simp only [LogState.act] at enabled
    split at enabled
    · rename_i passed
      exact ⟨_, full, free, (Option.some.inj enabled).symm, keeps.unthrottle passed⟩
    · cases enabled
  | append producer =>
    cases state : s.producers producer with
    | idle => simp [LogState.act, state] at enabled
    | passed curSec logLine => simp [LogState.act, state] at enabled
    | locking curSec logLine => exact keeps.append state enabled
  | check =>
    by_cases checking : s.consumer = .checking
    · exact keeps.check checking enabled
    · simp [LogState.act, checking] at enabled
  | persist opened =>
    by_cases persisting : s.consumer = .persisting
    · exact keeps.persist persisting opened enabled
    · simp [LogState.act, persisting] at enabled
  | clear =>
    by_cases clearing : s.consumer = .clearing
    · exact keeps.clear clearing enabled
    · simp [LogState.act, clearing] at enabled

theorem keeps_start {log : CRingLog} (shape : log.Shape [] cells) : (start log).Keeps [] cells :=
  ⟨shape, fun working => absurd rfl working, fun _ => trivial⟩

theorem reachable_keeps (reachable : (logSystem CRingLog.Started).Reachable allowed s) :
    ∃ full free, s.Keeps full free := by
  refine reachable.invariant (fun s => ∃ full free, s.Keeps full free) ?_ ?_
  · rintro s ⟨log, ⟨cells, shape, _⟩, rfl⟩
    exact ⟨[], cells, keeps_start shape⟩
  · rintro s step s' ⟨full, free, keeps⟩ _ taken
    obtain ⟨next, full', free', same, follows⟩ := keeps.act taken
    cases same
    exact ⟨full', free', follows.keeps⟩

end LogState

end WSlyh.Log
