import WSlyh.Log.Filling

/-! When a record that came past the throttle is dropped. The time of the last failure is
one for all producers: a failure that another producer notes between a producer's reset and
its locked section makes it drop its record although there is a cell for it. -/

namespace WSlyh.Log

open Libc Lib

/-- There is no cell for the record: `m_pCurBuf` is full, or it has no room, the next cell
is full and no cell may be added. -/
def CRingLog.Blocked (log : CRingLog) (logLine : Bytes) : Prop :=
  (log.cell log.curBuf).status = .full ∨ log.Overflows logLine

/-- The section has to move on to a cell that it may use, and finds the time of a failure. -/
def CRingLog.Spoiled (log : CRingLog) (logLine : Bytes) : Prop :=
  log.lastLogFailTime ≠ 0 ∧ (log.cell log.curBuf).status = .free ∧
    (log.cell log.curBuf).getFreeLen < logLine.length ∧
    ∃ nextBuf, (log.cell log.curBuf).next = some nextBuf ∧
      ((log.cell nextBuf).status = .free ∨ log.overLimit = false)

namespace CRingLog

variable {log log' : CRingLog} {full free rest : List CellPtr} {curSec : Nat} {logLine : Bytes}

theorem Spoiled.not_blocked (spoiled : log.Spoiled logLine) : ¬ log.Blocked logLine := by
  obtain ⟨_, isFree, _, nextBuf, next, usable⟩ := spoiled
  rintro (isFull | ⟨_, _, ⟨nextBuf', next', isFull⟩, limit⟩)
  · rw [isFree] at isFull
    cases isFull
  · cases next.symm.trans next'
    rcases usable with isFree' | room
    · rw [isFree'] at isFull
      cases isFull
    · rw [limit] at room
      cases room

/-- A section that moves on without reaching the memory limit leaves the failure time alone. -/
theorem Moved.free_ne_nil (moved : (log.modify log.curBuf setFull).Moved full rest curSec log' free')
    (shape : log.Shape full (log.curBuf :: rest)) (narrow : (log.cell log.curBuf).getFreeLen < logLine.length)
    (unblocked : ¬ log.Blocked logLine) : free' ≠ [] ∧ log'.lastLogFailTime = log.lastLogFailTime := by
  rcases moved.outcome with ⟨found, time⟩ | ⟨_, _, rfl, limit⟩
  · exact ⟨found, time⟩
  · have isFree := shape.marks.isFree log.curBuf (by simp)
    exact absurd (.inr (shape.overflows isFree narrow limit)) unblocked

theorem Shape.spoiled (shape : log.Shape full (log.curBuf :: rest)) (failed : log.lastLogFailTime ≠ 0)
    (narrow : (log.cell log.curBuf).getFreeLen < logLine.length) (unblocked : ¬ log.Blocked logLine) :
    log.Spoiled logLine := by
  have isFree := shape.marks.isFree log.curBuf (by simp)
  obtain ⟨nextBuf, next⟩ : ∃ nextBuf, (log.cell log.curBuf).next = some nextBuf := by
    rw [shape.links.next_eq]
    cases rest with
    | nil => exact ⟨_, rfl⟩
    | cons second rest => exact ⟨_, rfl⟩
  refine ⟨failed, isFree, narrow, nextBuf, next, ?_⟩
  cases status : (log.cell nextBuf).status with
  | free => exact .inl rfl
  | full =>
    right
    cases limit : log.overLimit with
    | false => rfl
    | true => exact absurd (.inr ⟨isFree, narrow, ⟨nextBuf, next, status⟩, limit⟩) unblocked

/-- A record is dropped without need exactly where the section finds the time of a failure. -/
theorem Shape.drops_iff (shape : log.Shape full free) (fits : logLine.length ≤ log.oneBuffLen) (curSec : Nat) :
    (log.Drops curSec logLine .succeeds → log.Blocked logLine) ↔ ¬ log.Spoiled logLine := by
  constructor
  · intro onlyBlocked spoiled
    have unblocked := spoiled.not_blocked
    obtain ⟨failed, isFree, narrow, _⟩ := spoiled
    apply unblocked
    apply onlyBlocked
    rcases shape.seekCell fits curSec with ⟨_, _, room, _⟩ | ⟨isFull, _⟩ | ⟨rest, log', free', rfl, _, _, seeks, moved⟩
    · exact absurd room (by omega)
    · rw [isFree] at isFull
      cases isFull
    · refine ⟨log', _, seeks, ?_⟩
      have time := (moved.free_ne_nil shape narrow unblocked).2
      intro calls
      exact failed (time.symm.trans (beq_iff_eq.mp calls.1))
  · intro unspoiled dropped
    obtain ⟨found, calls, done, dropped⟩ := dropped
    apply Classical.byContradiction
    intro unblocked
    rcases shape.seekCell fits curSec with ⟨_, _, room, seeks⟩ | ⟨isFull, _⟩ |
      ⟨rest, log', free', rfl, narrow, _, seeks, moved⟩
    · cases seeks.symm.trans done
      exact dropped ⟨rfl, room⟩
    · exact unblocked (.inl isFull)
    · cases seeks.symm.trans done
      obtain ⟨some_, time⟩ := moved.free_ne_nil shape narrow unblocked
      apply dropped
      obtain ⟨first, tail, rfl⟩ := List.exists_cons_of_ne_nil some_
      have cur : first = found.curBuf := Option.some.inj moved.shape.cur
      subst cur
      constructor
      · rw [time, beq_iff_eq]
        apply Classical.byContradiction
        intro failed
        exact unspoiled (shape.spoiled failed narrow unblocked)
      · rw [moved.room]
        exact fits

end CRingLog

namespace LogState

variable {s : LogState} {full : List CellPtr} {first second : CellPtr} {n : Nat}

/-- So many producers set the failure time back, and wait for the lock. -/
def waitSteps : Nat → List LogStep
  | 0 => []
  | n + 1 => .enter n 7 kilobyte :: .unthrottle n :: waitSteps n

/-- So many of them write, all but the first two. -/
def writeSteps : Nat → List LogStep
  | 0 => []
  | n + 1 => .append (n + 2) :: writeSteps n

/-- One of the producers that wait fails, the consumer frees two cells, and all the others but
one write to the first of these. -/
def spoilSteps (n : Nat) : List LogStep :=
  waitSteps (n + 2) ++ [.append 1] ++ drainSteps ++ drainSteps ++ writeSteps n

theorem run_wait (initial : CRingLog → Prop) (n : Nat) (idle : ∀ producer < n, s.producers producer = .idle)
    (quiet : s.log.lastLogFailTime = 0) (fits : kilobyte.length ≤ s.log.oneBuffLen) :
    ∃ s', (logSystem initial).Run s (waitSteps n) s' ∧ s'.log = s.log ∧ s'.consumer = s.consumer ∧
      (∀ producer < n, s'.producers producer = .locking 7 kilobyte) ∧
      ∀ producer ≥ n, s'.producers producer = s.producers producer := by
  induction n generalizing s with
  | zero => exact ⟨s, rfl, rfl, rfl, fun producer below => absurd below (Nat.not_lt_zero _), fun _ _ => rfl⟩
  | succ n ih =>
    have first := run_lock initial n 7 (idle n (Nat.lt_succ_self n)) quiet fits
    have others (producer : Nat) (differ : producer ≠ n) :
        (s.setProducer n (.locking 7 kilobyte)).producers producer = s.producers producer :=
      Function.update_of_ne differ _ _
    obtain ⟨s', waits, log', consumer', waiting, rest⟩ := ih (s := s.setProducer n (.locking 7 kilobyte))
      (fun producer below => (others producer (by omega)).trans (idle producer (by omega))) quiet fits
    refine ⟨s', first.append waits, log', consumer', fun producer below => ?_, fun producer above => ?_⟩
    · rcases Nat.lt_succ_iff_lt_or_eq.mp below with before | same
      · exact waiting producer before
      · rw [rest producer same.ge, same]
        exact Function.update_self n _ _
    · rw [rest producer (by omega), others producer (by omega)]

theorem run_append (initial : CRingLog → Prop) (locking : s.producers producer = .locking curSec logLine)
    (done : s.log.appendLocked curSec logLine .succeeds = .ok (log', calls)) :
    ∃ s', (logSystem initial).Run s [.append producer] s' ∧ s'.log = log' ∧ s'.consumer = s.consumer ∧
      ∀ other, other ≠ producer → s'.producers other = s.producers other := by
  refine ⟨{ s with
    log := log'
    accepted := if calls then s.accepted ++ [logLine] else s.accepted }.setProducer producer .idle, ?_, rfl, rfl, ?_⟩
  · refine ⟨_, ?_, rfl⟩
    simp only [logSystem, act, locking, done, bind, Except.bind]
  · intro other differ
    exact Function.update_of_ne differ _ _

/-- After the failure two cells are free, and in the first there is room for the records of so
many of those who wait. -/
structure Refilled (s : LogState) (full : List CellPtr) (first second : CellPtr) (n : Nat) : Prop where
  shape : s.log.Shape full [first, second]
  level : (s.log.cell first).aData.length + n * 1024 = 30 * 1024 * 1024
  oneBuffLen : s.log.oneBuffLen = 30 * 1024 * 1024
  failed : s.log.lastLogFailTime ≠ 0
  left : s.producers 0 = .locking 7 kilobyte
  waiting : ∀ k < n, s.producers (k + 2) = .locking 7 kilobyte

theorem Refilled.freeLen (refilled : s.Refilled full first second n) :
    s.log.curBuf = first ∧ (s.log.cell s.log.curBuf).status = .free ∧
      (s.log.cell s.log.curBuf).getFreeLen = n * 1024 := by
  have cur : first = s.log.curBuf := Option.some.inj refilled.shape.cur
  subst cur
  refine ⟨rfl, refilled.shape.marks.isFree _ (by simp), ?_⟩
  have level := refilled.level
  rw [CBufferCell.getFreeLen, CBufferCell.curLength, refilled.shape.links.sized _ (by simp), refilled.oneBuffLen]
  omega

theorem Refilled.append (initial : CRingLog → Prop) (refilled : s.Refilled full first second (n + 1)) :
    ∃ s', (logSystem initial).Run s [.append (n + 2)] s' ∧ s'.Refilled full first second n := by
  obtain ⟨cur, isFree, freeLen⟩ := refilled.freeLen
  have room : kilobyte.length ≤ (s.log.cell s.log.curBuf).getFreeLen := by
    rw [freeLen, length_kilobyte]
    omega
  have done : s.log.appendLocked 7 kilobyte .succeeds =
      .ok (s.log.modify s.log.curBuf (·.append kilobyte), true) := by
    rw [CRingLog.appendLocked, if_pos ⟨isFree, room⟩]
  obtain ⟨s', appends, log', _, others⟩ := run_append initial (refilled.waiting n (Nat.lt_succ_self n)) done
  refine ⟨s', appends, by rw [log']; exact refilled.shape.append kilobyte, ?_, by rw [log']; exact refilled.oneBuffLen,
    by rw [log']; exact refilled.failed, (others 0 (by omega)).trans refilled.left, fun k below => ?_⟩
  · have level := refilled.level
    rw [log', ← cur, CRingLog.cell_modify_self, CRingLog.append_aData room, List.length_append, length_kilobyte, cur]
    omega
  · rw [others (k + 2) (by omega)]
    exact refilled.waiting k (by omega)

theorem Refilled.writes (initial : CRingLog → Prop) (refilled : s.Refilled full first second n) :
    ∃ s', (logSystem initial).Run s (writeSteps n) s' ∧ s'.Refilled full first second 0 := by
  induction n generalizing s with
  | zero => exact ⟨s, rfl, refilled⟩
  | succ n ih =>
    obtain ⟨s₁, one, refilled₁⟩ := refilled.append initial
    obtain ⟨s₂, others, refilled₂⟩ := ih refilled₁
    exact ⟨s₂, one.append others, refilled₂⟩

theorem Refilled.spoiled (refilled : s.Refilled full first second 0) : s.log.Spoiled kilobyte := by
  obtain ⟨cur, isFree, freeLen⟩ := refilled.freeLen
  refine ⟨refilled.failed, isFree, ?_, second, ?_, .inl (refilled.shape.marks.isFree second (by simp))⟩
  · rw [freeLen, length_kilobyte]
    omega
  · rw [cur]
    exact refilled.shape.links.next_eq

theorem Packed.spoil (initial : CRingLog → Prop) (packed : s.Packed full [] (30 * 1024 * 1024) 102 sent) :
    ∃ s', (logSystem initial).Run s (spoilSteps 30720) s' ∧
      s'.producers 0 = .locking 7 kilobyte ∧ s'.log.Spoiled kilobyte := by
  obtain ⟨log', fails, time, size, _, shape, _⟩ := packed.limited 7
  rw [if_neg (by decide)] at fails
  obtain ⟨first, second, rest, cells⟩ : ∃ first second rest, full ++ [s.log.curBuf] = first :: second :: rest := by
    have two := packed.shape.links.two
    match full ++ [s.log.curBuf], two with
    | first :: second :: rest, _ => exact ⟨first, second, rest, rfl⟩
  rw [cells] at shape
  obtain ⟨s₁, waits, log₁, consumer₁, waiting, _⟩ :=
    run_wait initial (30720 + 2) (fun producer _ => congrFun packed.idle producer) packed.quiet packed.fits
  rw [← log₁] at fails
  obtain ⟨s₂, refused, log₂, consumer₂, others₂⟩ := run_append initial (waiting 1 (by decide)) fails
  rw [← log₂] at shape time size
  obtain ⟨s₃, drains, freed₃⟩ := run_drain initial shape (consumer₂.trans (consumer₁.trans packed.consumer))
  obtain ⟨s₄, again, freed₄⟩ := run_drain initial freed₃.shape freed₃.consumer
  have kept (producer : Nat) (differ : producer ≠ 1) (below : producer < 30720 + 2) :
      s₄.producers producer = .locking 7 kilobyte := by
    rw [freed₄.producers, freed₃.producers, others₂ producer differ]
    exact waiting producer below
  have refilled : s₄.Refilled rest first second 30720 := by
    refine ⟨freed₄.shape, ?_, freed₄.oneBuffLen.trans (freed₃.oneBuffLen.trans size), ?_,
      kept 0 (by omega) (by omega), fun k inside => kept (k + 2) (by omega) (by omega)⟩
    · rw [freed₄.others first (by simp), freed₃.empty]
      rfl
    · rw [freed₄.lastLogFailTime, freed₃.lastLogFailTime, time]
      decide
  obtain ⟨s₅, writes, refilled₅⟩ := refilled.writes initial
  exact ⟨s₅, (((waits.append refused).append drains).append again).append writes, refilled₅.left, refilled₅.spoiled⟩

/-- The constructor's log is filled up to the memory limit. Then one producer fails, two cells
are freed, and others that have set the failure time back before fill the first of them. -/
theorem spoiled_run :
    ∃ log s, CRingLog.create .empty none 0 (30 * 1024 * 1024) .succeeds .succeeds .succeeds = .ok (some log) ∧
      (logSystem CRingLog.Started).Run (.start log) (kilobyteSteps 7 3102720 ++ spoilSteps 30720) s ∧
      (logSystem CRingLog.Started).Reachable (fun _ _ => True) s ∧
      s.producers 0 = .locking 7 kilobyte ∧ s.log.Spoiled kilobyte := by
  obtain ⟨log, done, size, _, _, _, _, _, _, built⟩ := CRingLog.construct_built .empty (30 * 1024 * 1024)
  have started : log.Started := CRingLog.Constructed.started ⟨.empty, none, 0, 30 * 1024 * 1024, done⟩
  obtain ⟨s, full, run, packed⟩ := packed_run CRingLog.Started built size 7 99 le_rfl
  obtain ⟨s', spoils, locking, spoiled⟩ := packed.spoil CRingLog.Started
  have initial : (logSystem CRingLog.Started).Reachable (fun _ _ => True) (.start log) := .init ⟨log, started, rfl⟩
  have whole := run.append spoils
  exact ⟨log, s', done, whole, initial.run whole, locking, spoiled⟩

end LogState

/-- In every reachable state, the locked section of a producer that has come past the
throttle drops its record only where there is no cell for it, unless it is spoiled. -/
theorem drops_iff_of_reachable (reachable : (logSystem CRingLog.Started).Reachable (fun _ _ => True) s)
    (locking : s.producers producer = .locking curSec logLine) :
    (s.log.Drops curSec logLine .succeeds → s.log.Blocked logLine) ↔ ¬ s.log.Spoiled logLine := by
  obtain ⟨full, free, keeps⟩ := LogState.reachable_keeps reachable
  have fits := keeps.fits producer
  rw [locking] at fits
  exact keeps.shape.drops_iff fits curSec

theorem spoiled_drops_iff :
    ∃ log s, CRingLog.create .empty none 0 (30 * 1024 * 1024) .succeeds .succeeds .succeeds = .ok (some log) ∧
      (logSystem CRingLog.Started).Run (.start log) (kilobyteSteps 7 3102720 ++ LogState.spoilSteps 30720) s ∧
      s.producers 0 = .locking 7 kilobyte ∧ s.log.Spoiled kilobyte ∧
      ((s.log.Drops 7 kilobyte .succeeds → s.log.Blocked kilobyte) ↔ ¬ s.log.Spoiled kilobyte) := by
  obtain ⟨log, s, done, run, reachable, locking, spoiled⟩ := LogState.spoiled_run
  exact ⟨log, s, done, run, locking, spoiled, drops_iff_of_reachable reachable locking⟩

/-- There the last of the waiting producers drops its record although a cell is free. -/
theorem freed_drops :
    ∃ log s, CRingLog.create .empty none 0 (30 * 1024 * 1024) .succeeds .succeeds .succeeds = .ok (some log) ∧
      (logSystem CRingLog.Started).Run (.start log) (kilobyteSteps 7 3102720 ++ LogState.spoilSteps 30720) s ∧
      s.producers 0 = .locking 7 kilobyte ∧ s.log.Drops 7 kilobyte .succeeds ∧ ¬ s.log.Blocked kilobyte := by
  obtain ⟨log, s, done, run, reachable, locking, spoiled⟩ := LogState.spoiled_run
  obtain ⟨full, free, keeps⟩ := LogState.reachable_keeps reachable
  have fits := keeps.fits 0
  rw [locking] at fits
  have dropped : s.log.Drops 7 kilobyte .succeeds := by
    apply Classical.byContradiction
    intro kept
    exact (keeps.shape.drops_iff fits 7).mp (fun dropped => absurd dropped kept) spoiled
  exact ⟨log, s, done, run, locking, dropped, spoiled.not_blocked⟩

end WSlyh.Log
