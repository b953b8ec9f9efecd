import WSlyh.Log.Execution
import WSlyh.Log.Filling

/-! Growth that fails. The constructor looks at what `CreateCellBuffer` returns, the locked
section of `TryAppendLog` does not. -/

namespace WSlyh.Log

open Libc Lib

/-- How a call of `CreateCellBuffer` whose result is used without a look at it ends. -/
def Allocation.fault : Allocation → Option Fault
  | .succeeds => none
  | .shmgetFails => some .nullCell
  | .shmatFails => some .badAddress

/-- The locked section comes to its end although no cell could be added: the number of cells
is the old one, the ring is closed and in order, and it holds what it held. -/
def CRingLog.SurvivesFailure (log : CRingLog) (curSec : Nat) (logLine : Bytes) (allocation : Allocation) : Prop :=
  ∃ log' appended, log.appendLocked curSec logLine allocation = .ok (log', appended) ∧
    log'.buffCnt = log.buffCnt ∧
    ∃ full free, log'.Shape full free ∧ log'.contents (full ++ free) = log.contents (full ++ free)

namespace CRingLog

variable {log : CRingLog} {allocation : Allocation} {fault : Fault} {nextBuf : CellPtr} {logLine : Bytes}

theorem grow_fault (failed : allocation.fault = some fault) : log.grow nextBuf allocation = .error fault := by
  cases allocation with
  | succeeds => cases failed
  | shmgetFails =>
    cases failed
    rfl
  | shmatFails =>
    cases failed
    rfl

theorem next_of_grows (grows : log.grows logLine = true) : ∃ nextBuf, (log.cell log.curBuf).next = some nextBuf := by
  cases found : (log.cell log.curBuf).next with
  | some nextBuf => exact ⟨nextBuf, rfl⟩
  | none => simp [CRingLog.grows, found] at grows

theorem moveOn_fault (grows : log.grows logLine = true) (failed : allocation.fault = some fault) (curSec : Nat) :
    (log.modify log.curBuf setFull).moveOn curSec allocation = .error fault := by
  obtain ⟨nextBuf, next⟩ := next_of_grows grows
  obtain ⟨_, _, isFull, limit⟩ := (grows_iff next).mp grows
  have found : ((log.modify log.curBuf setFull).cell (log.modify log.curBuf setFull).curBuf).next = some nextBuf := by
    apply Eq.trans (congrArg CBufferCell.next (cell_modify_self ..))
    exact next
  have below : (log.modify log.curBuf setFull).overLimit = false := limit
  simp only [moveOn, found, isFull, below, if_true, Bool.false_eq_true, if_false]
  exact grow_fault failed

theorem appendLocked_fault (grows : log.grows logLine = true) (failed : allocation.fault = some fault) (curSec : Nat) :
    log.appendLocked curSec logLine allocation = .error fault := by
  obtain ⟨nextBuf, next⟩ := next_of_grows grows
  obtain ⟨isFree, narrow, _, _⟩ := (grows_iff next).mp grows
  have notHere : ¬ ((log.cell log.curBuf).status = .free ∧ (log.cell log.curBuf).getFreeLen ≥ logLine.length) := by
    rintro ⟨_, room⟩
    exact absurd narrow (Nat.not_lt.mpr room)
  simp only [appendLocked, if_neg notHere, if_pos isFree, moveOn_fault grows failed curSec, bind, Except.bind]

end CRingLog

/-- Whenever the ring grows and there is no memory for the new cell, the process comes down
in the locked section, through the null pointer or through the address of a failed `shmat`. -/
theorem not_survives_of_grows {log : CRingLog} {logLine : Bytes} {allocation : Allocation} {fault : Fault}
    (grows : log.grows logLine = true) (failed : allocation.fault = some fault) (curSec : Nat) :
    log.appendLocked curSec logLine allocation = .error fault ∧ ¬ log.SurvivesFailure curSec logLine allocation := by
  have result := CRingLog.appendLocked_fault grows failed curSec
  refine ⟨result, ?_⟩
  rintro ⟨log', appended, survived, _⟩
  cases result.symm.trans survived

theorem LogState.Packed.grows {s : LogState} (packed : s.Packed full [] (30 * 1024 * 1024) count sent)
    (below : s.log.overLimit = false) : s.log.grows kilobyte = true := by
  obtain ⟨isFree, narrow⟩ := packed.narrow
  obtain ⟨next, isFull⟩ := packed.filled.next_full
  have next' : (s.log.cell s.log.curBuf).next = some s.log.prstBuf := by
    rw [show (s.log.modify s.log.curBuf setFull).curBuf = s.log.curBuf from rfl, CRingLog.cell_modify_self] at next
    exact next
  exact (CRingLog.grows_iff next').mpr ⟨isFree, narrow, isFull, below⟩

theorem packed_grows :
    ∃ log s, CRingLog.create .empty none 0 (30 * 1024 * 1024) .succeeds .succeeds .succeeds = .ok (some log) ∧
      (logSystem CRingLog.Constructed).Run (.start log) (kilobyteSteps 0 61440) s ∧ s.log.grows kilobyte = true := by
  obtain ⟨log, done, size, _, _, _, _, _, _, built⟩ := CRingLog.construct_built .empty (30 * 1024 * 1024)
  obtain ⟨s, full, run, packed⟩ := LogState.packed_run CRingLog.Constructed built size 0 0 (Nat.zero_le 99)
  have below : s.log.overLimit = false := by
    rw [← Bool.not_eq_true, packed.overLimit_iff (by decide)]
    decide
  exact ⟨log, s, done, run, packed.grows below⟩

/-- After 61440 records of a kilobyte both cells of the constructor are full, and the process
comes down with the next record when `shmget` fails. -/
theorem packed_not_survives :
    ∃ log s, CRingLog.create .empty none 0 (30 * 1024 * 1024) .succeeds .succeeds .succeeds = .ok (some log) ∧
      (logSystem CRingLog.Constructed).Run (.start log) (kilobyteSteps 0 61440) s ∧
      s.log.grows kilobyte = true ∧ ¬ s.log.SurvivesFailure 0 kilobyte .shmgetFails := by
  obtain ⟨log, s, done, run, grows⟩ := packed_grows
  refine ⟨log, s, done, run, grows, ?_⟩
  rintro ⟨log', appended, survived, _⟩
  have failed : s.log.appendLocked 0 kilobyte .shmgetFails = .error .nullCell :=
    CRingLog.appendLocked_fault grows rfl 0
  cases failed.symm.trans survived

/-- There the address of a failed `shmat` is written through. -/
theorem packed_badAddress :
    ∃ log s, CRingLog.create .empty none 0 (30 * 1024 * 1024) .succeeds .succeeds .succeeds = .ok (some log) ∧
      (logSystem CRingLog.Constructed).Run (.start log) (kilobyteSteps 0 61440) s ∧
      s.log.appendLocked 0 kilobyte .shmatFails = .error .badAddress ∧
      ¬ s.log.SurvivesFailure 0 kilobyte .shmatFails := by
  obtain ⟨log, s, done, run, grows⟩ := packed_grows
  exact ⟨log, s, done, run, not_survives_of_grows grows rfl 0⟩

end WSlyh.Log
