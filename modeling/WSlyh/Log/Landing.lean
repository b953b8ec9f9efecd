import WSlyh.Log.Start

/-! Where the record of a producer's locked section lands: in the cell at `m_pCurBuf` when
the section comes to `Append`, if there is room. -/

namespace WSlyh.Log

open Libc Lib

namespace CRingLog

/-- The locked section of `TryAppendLog` as far as the call of `Append`. The flag tells
whether it comes to it. -/
def seekCell (log : CRingLog) (curSec : Nat) (logLine : Bytes) (allocation : Allocation) :
    Except Fault (CRingLog × Bool) :=
  if (log.cell log.curBuf).status = .free ∧ (log.cell log.curBuf).getFreeLen ≥ logLine.length then .ok (log, true)
  else if (log.cell log.curBuf).status = .free then do
    let log ← (log.modify log.curBuf setFull).moveOn curSec allocation
    .ok (log, log.lastLogFailTime == 0)
  else .ok ({ log with lastLogFailTime := curSec }, false)

/-- The record of this locked section is in no cell afterwards. -/
def Drops (log : CRingLog) (curSec : Nat) (logLine : Bytes) (allocation : Allocation) : Prop :=
  ∃ log' calls, log.seekCell curSec logLine allocation = .ok (log', calls) ∧
    ¬ (calls = true ∧ logLine.length ≤ (log'.cell log'.curBuf).getFreeLen)

variable {log log' : CRingLog} {full free rest : List CellPtr} {curSec : Nat} {logLine : Bytes}
  {allocation : Allocation}

theorem appendLocked_eq (log : CRingLog) (curSec : Nat) (logLine : Bytes) (allocation : Allocation) :
    log.appendLocked curSec logLine allocation = (log.seekCell curSec logLine allocation).map fun (log', calls) =>
      (if calls then log'.modify log'.curBuf (·.append logLine) else log', calls) := by
  rw [appendLocked, seekCell]
  split
  · rfl
  · split
    · cases moved : (log.modify log.curBuf setFull).moveOn curSec allocation with
      | error fault => rfl
      | ok log' =>
        by_cases none_ : log'.lastLogFailTime = 0
        · simp [bind, Except.bind, Except.map, none_]
        · simp [bind, Except.bind, Except.map, none_]
    · rfl

theorem seekCell_of_room (isFree : (log.cell log.curBuf).status = .free)
    (room : logLine.length ≤ (log.cell log.curBuf).getFreeLen) :
    log.seekCell curSec logLine allocation = .ok (log, true) := by
  rw [seekCell, if_pos ⟨isFree, room⟩]

theorem seekCell_of_full (isFull : (log.cell log.curBuf).status = .full) :
    log.seekCell curSec logLine allocation = .ok ({ log with lastLogFailTime := curSec }, false) := by
  rw [seekCell, if_neg (by simp [isFull]), if_neg (by simp [isFull])]

theorem seekCell_of_moveOn (isFree : (log.cell log.curBuf).status = .free)
    (narrow : (log.cell log.curBuf).getFreeLen < logLine.length)
    (done : (log.modify log.curBuf setFull).moveOn curSec allocation = .ok log') :
    log.seekCell curSec logLine allocation = .ok (log', log'.lastLogFailTime == 0) := by
  rw [seekCell, if_neg (by omega), if_pos isFree, done]
  rfl

/-- The three ways of a locked section: it stays at a cell with room, it finds a full cell,
or it moves on from the cell that it has filled. -/
theorem Shape.seekCell (shape : log.Shape full free) (fits : logLine.length ≤ log.oneBuffLen) (curSec : Nat) :
    (∃ rest, free = log.curBuf :: rest ∧ logLine.length ≤ (log.cell log.curBuf).getFreeLen ∧
      log.seekCell curSec logLine .succeeds = .ok (log, true)) ∨
    ((log.cell log.curBuf).status = .full ∧
      log.seekCell curSec logLine .succeeds = .ok ({ log with lastLogFailTime := curSec }, false)) ∨
    ∃ rest log' free', free = log.curBuf :: rest ∧ (log.cell log.curBuf).getFreeLen < logLine.length ∧
      (log.modify log.curBuf setFull).moveOn curSec .succeeds = .ok log' ∧
      log.seekCell curSec logLine .succeeds = .ok (log', log'.lastLogFailTime == 0) ∧
      (log.modify log.curBuf setFull).Moved full rest curSec log' free' := by
  cases status : (log.cell log.curBuf).status with
  | full =>
    right
    left
    exact ⟨rfl, seekCell_of_full status⟩
  | free =>
    obtain ⟨rest, rfl⟩ := shape.free_eq status
    by_cases room : logLine.length ≤ (log.cell log.curBuf).getFreeLen
    · left
      exact ⟨rest, rfl, room, seekCell_of_room status room⟩
    · have narrow : (log.cell log.curBuf).getFreeLen < logLine.length := Nat.lt_of_not_le room
      obtain ⟨log', free', done, moved⟩ := (shape.filled (shape.nonempty_of_narrow narrow fits)).moveOn curSec
      right
      right
      exact ⟨rest, log', free', rfl, narrow, done, seekCell_of_moveOn status narrow done, moved⟩

theorem clearLocked_frame (done : log.clearLocked = .ok log') :
    log'.lastLogFailTime = log.lastLogFailTime ∧ log'.curBuf = log.curBuf ∧
      ∀ cell, log'.cell cell = (log.modify log.prstBuf CBufferCell.clearBuffer).cell cell := by
  rw [clearLocked] at done
  split at done
  · cases done
  · cases done
    exact ⟨rfl, rfl, fun _ => rfl⟩

end CRingLog

end WSlyh.Log
