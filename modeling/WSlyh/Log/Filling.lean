import WSlyh.Log.Landing

/-! Runs that fill the ring. One producer sends records of a kilobyte, of which a cell of the
constructor's log takes a whole number. The ring grows by a cell whenever all of them are
full, up to the memory limit, and the consumer frees them again. -/

namespace WSlyh.Log

open Libc Lib

/-- One producer logs one record. -/
def sendSteps (curSec : Nat) (logLine : Bytes) : List LogStep :=
  [.enter 0 curSec logLine, .unthrottle 0, .append 0]

def kilobyte : Bytes := List.replicate 1024 65

theorem length_kilobyte : kilobyte.length = 1024 := List.length_replicate

/-- So many records of a kilobyte, one after the other. -/
def kilobyteSteps (curSec n : Nat) : List LogStep := (List.replicate n (sendSteps curSec kilobyte)).flatten

theorem kilobyteSteps_add (curSec m n : Nat) :
    kilobyteSteps curSec (m + n) = kilobyteSteps curSec m ++ kilobyteSteps curSec n := by
  rw [kilobyteSteps, List.replicate_add, List.flatten_append]
  rfl

theorem kilobyteSteps_one (curSec : Nat) : kilobyteSteps curSec 1 = sendSteps curSec kilobyte := rfl

theorem mem_kilobyteSteps (member : step ∈ kilobyteSteps curSec n) : step ∈ sendSteps curSec kilobyte := by
  obtain ⟨steps, among, inside⟩ := List.mem_flatten.mp member
  rwa [List.eq_of_mem_replicate among] at inside

/-- A round of the consumer over a full cell, with the log file open. -/
def drainSteps : List LogStep := [.check, .persist true, .clear]

namespace LogState

variable {s : LogState} {full free rest : List CellPtr} {first : CellPtr} {used count sent curSec : Nat}

/-- After no failure a producer comes past the throttle to the lock. -/
theorem run_lock (initial : CRingLog → Prop) (producer curSec : Nat) (idle : s.producers producer = .idle)
    (quiet : s.log.lastLogFailTime = 0) (fits : logLine.length ≤ s.log.oneBuffLen) :
    (logSystem initial).Run s [.enter producer curSec logLine, .unthrottle producer]
      (s.setProducer producer (.locking curSec logLine)) := by
  have same : { s.log with lastLogFailTime := 0 } = s.log := by rw [← quiet]
  have open_ : s.log.throttled curSec = false := by simp [CRingLog.throttled, quiet]
  refine ⟨s.setProducer producer (.passed curSec logLine), ?_, _, ?_, rfl⟩
  · simp [logSystem, act, idle, fits, open_]
  · simp [logSystem, act, setProducer, same]

theorem run_send (initial : CRingLog → Prop) (idle : s.producers = fun _ => .idle) (quiet : s.log.lastLogFailTime = 0)
    (fits : logLine.length ≤ s.log.oneBuffLen)
    (done : s.log.appendLocked curSec logLine .succeeds = .ok (log', calls)) :
    (logSystem initial).Run s (sendSteps curSec logLine)
      { s with log := log', accepted := if calls then s.accepted ++ [logLine] else s.accepted } := by
  have locks := run_lock initial 0 curSec (congrFun idle 0) quiet fits
  have back : Function.update s.producers 0 .idle = s.producers := by
    rw [idle]
    exact Function.update_eq_self 0 _
  refine locks.append ⟨_, ?_, rfl⟩
  simp [logSystem, act, setProducer, done, bind, Except.bind, back]

/-- The first of the full cells is written out and free again, and all else is as before. -/
structure Freed (s s' : LogState) (first : CellPtr) (full free : List CellPtr) : Prop where
  shape : s'.log.Shape full (free ++ [first])
  persisted : s'.persisted = s.persisted ++ (s.log.cell first).aData
  empty : (s'.log.cell first).aData = []
  others : ∀ cell ∈ full ++ free, s'.log.cell cell = s.log.cell cell
  consumer : s'.consumer = .checking
  producers : s'.producers = s.producers
  accepted : s'.accepted = s.accepted
  oneBuffLen : s'.log.oneBuffLen = s.log.oneBuffLen
  buffCnt : s'.log.buffCnt = s.log.buffCnt
  lastLogFailTime : s'.log.lastLogFailTime = s.log.lastLogFailTime

theorem run_drain (initial : CRingLog → Prop) (shape : s.log.Shape (first :: full) free)
    (checking : s.consumer = .checking) :
    ∃ s', (logSystem initial).Run s drainSteps s' ∧ s.Freed s' first full free := by
  have start : first = s.log.prstBuf := Option.some.inj shape.links.ring.head
  subst start
  obtain ⟨isFull, nonempty⟩ := shape.marks.isFull s.log.prstBuf (by simp)
  obtain ⟨log', cleared, shape', _, oneBuffLen, buffCnt⟩ := shape.clearLocked
  obtain ⟨time, _, cells⟩ := CRingLog.clearLocked_frame cleared
  have checks : s.log.checkLocked = .ok (s.log, true) := by
    have held : ¬ (s.log.cell s.log.prstBuf).isEmpty = true := by
      simp [CBufferCell.isEmpty, CBufferCell.curLength, nonempty]
    rw [CRingLog.checkLocked, if_neg held, if_neg (by simp [isFull])]
  refine ⟨{ s with
    log := log'
    persisted := s.persisted ++ (s.log.cell s.log.prstBuf).persist }, ?_,
    shape', rfl, ?_, fun cell member => ?_, checking, rfl, rfl, oneBuffLen, buffCnt, time⟩
  · refine ⟨{ s with consumer := .persisting }, ?_, { s with
      persisted := s.persisted ++ (s.log.cell s.log.prstBuf).persist
      consumer := .clearing }, ?_, _, ?_, rfl⟩
    · simp [logSystem, act, checking, checks, bind, Except.bind]
    · simp [logSystem, act]
    · simp [logSystem, act, cleared, checking, bind, Except.bind]
  · rw [cells, CRingLog.cell_modify_self]
    rfl
  · rw [cells]
    have split : s.log.Links ([] ++ s.log.prstBuf :: (full ++ free)) := shape.links
    exact CRingLog.cell_modify_other (split.differ member) _

/-- One producer has sent so many records of a kilobyte: the full cells are full to the brim,
and the free one at `m_pCurBuf` is filled up to `used`. -/
structure Packed (s : LogState) (full rest : List CellPtr) (used count sent : Nat) : Prop where
  shape : s.log.Shape full (s.log.curBuf :: rest)
  brim : ∀ cell ∈ full, (s.log.cell cell).aData.length = 30 * 1024 * 1024
  level : (s.log.cell s.log.curBuf).aData.length = used
  oneBuffLen : s.log.oneBuffLen = 30 * 1024 * 1024
  buffCnt : s.log.buffCnt = count
  quiet : s.log.lastLogFailTime = 0
  idle : s.producers = fun _ => .idle
  consumer : s.consumer = .checking
  persisted : s.persisted = []
  accepted : s.accepted = List.replicate sent kilobyte
  total : sent * 1024 = full.length * (30 * 1024 * 1024) + used

theorem Packed.fits (packed : s.Packed full rest used count sent) : kilobyte.length ≤ s.log.oneBuffLen := by
  rw [packed.oneBuffLen, length_kilobyte]
  omega

theorem Packed.freeLen (packed : s.Packed full rest used count sent) :
    (s.log.cell s.log.curBuf).getFreeLen = 30 * 1024 * 1024 - used := by
  have sized := packed.shape.links.sized s.log.curBuf (by simp)
  rw [CBufferCell.getFreeLen, CBufferCell.curLength, packed.level, sized, packed.oneBuffLen]

/-- A record that fits stays in the cell. -/
theorem Packed.send (initial : CRingLog → Prop) (packed : s.Packed full rest used count sent) (curSec : Nat)
    (room : used + 1024 ≤ 30 * 1024 * 1024) :
    ∃ s', (logSystem initial).Run s (sendSteps curSec kilobyte) s' ∧
      s'.Packed full rest (used + 1024) count (sent + 1) := by
  have isFree := packed.shape.marks.isFree s.log.curBuf (by simp)
  have freeLen : kilobyte.length ≤ (s.log.cell s.log.curBuf).getFreeLen := by
    rw [packed.freeLen, length_kilobyte]
    omega
  have done : s.log.appendLocked curSec kilobyte .succeeds =
      .ok (s.log.modify s.log.curBuf (·.append kilobyte), true) := by
    rw [CRingLog.appendLocked, if_pos ⟨isFree, freeLen⟩]
  refine ⟨_, run_send initial packed.idle packed.quiet packed.fits done,
    packed.shape.append kilobyte, fun cell member => ?_, ?_, packed.oneBuffLen, packed.buffCnt, packed.quiet,
    packed.idle, packed.consumer, packed.persisted, ?_, ?_⟩
  · dsimp only
    rw [CRingLog.cell_modify_other (packed.shape.links.differ (List.mem_append_left _ member))]
    exact packed.brim cell member
  · dsimp only
    rw [show (s.log.modify s.log.curBuf (·.append kilobyte)).curBuf = s.log.curBuf from rfl, CRingLog.cell_modify_self,
      CRingLog.append_aData freeLen, List.length_append, packed.level, length_kilobyte]
  · rw [packed.accepted, List.replicate_succ']
    rfl
  · rw [Nat.succ_mul, packed.total, Nat.add_assoc]

theorem Packed.sends (initial : CRingLog → Prop) (packed : s.Packed full rest used count sent) (curSec n : Nat)
    (room : used + n * 1024 ≤ 30 * 1024 * 1024) :
    ∃ s', (logSystem initial).Run s (kilobyteSteps curSec n) s' ∧
      s'.Packed full rest (used + n * 1024) count (sent + n) := by
  induction n with
  | zero => exact ⟨s, rfl, by simpa using packed⟩
  | succ n ih =>
    rw [Nat.succ_mul, ← Nat.add_assoc] at room ⊢
    obtain ⟨s₁, before, packed₁⟩ := ih (le_trans (Nat.le_add_right ..) room)
    obtain ⟨s₂, last, packed₂⟩ := packed₁.send initial curSec room
    refine ⟨s₂, ?_, packed₂⟩
    rw [kilobyteSteps_add, kilobyteSteps_one]
    exact before.append last

theorem Packed.narrow (packed : s.Packed full rest (30 * 1024 * 1024) count sent) :
    (s.log.cell s.log.curBuf).status = .free ∧ (s.log.cell s.log.curBuf).getFreeLen < kilobyte.length := by
  refine ⟨packed.shape.marks.isFree _ (by simp), ?_⟩
  rw [packed.freeLen, length_kilobyte]
  omega

theorem Packed.filled (packed : s.Packed full rest (30 * 1024 * 1024) count sent) :
    (s.log.modify s.log.curBuf setFull).Filled full rest := by
  refine packed.shape.filled fun empty => ?_
  have brim := packed.level
  rw [empty] at brim
  cases brim

theorem Packed.brim_all (packed : s.Packed full rest (30 * 1024 * 1024) count sent) :
    ∀ cell ∈ full ++ [s.log.curBuf], (s.log.cell cell).aData.length = 30 * 1024 * 1024 := by
  intro cell member
  rcases List.mem_append.mp member with old | last
  · exact packed.brim cell old
  · rw [List.mem_singleton.mp last]
    exact packed.level

/-- The record for which a full cell has no room goes to the one that the section moves on to. -/
theorem Packed.moves (initial : CRingLog → Prop) (packed : s.Packed full rest (30 * 1024 * 1024) count sent)
    (done : (s.log.modify s.log.curBuf setFull).moveOn curSec .succeeds = .ok log')
    (quiet : log'.lastLogFailTime = s.log.lastLogFailTime) (buffCnt : log'.buffCnt = count')
    (moved : (s.log.modify s.log.curBuf setFull).Moved full rest curSec log' (log'.curBuf :: rest')) :
    ∃ s', (logSystem initial).Run s (sendSteps curSec kilobyte) s' ∧
      s'.Packed (full ++ [s.log.curBuf]) rest' 1024 count' (sent + 1) := by
  obtain ⟨isFree, narrow⟩ := packed.narrow
  have result := CRingLog.appendLocked_of_moveOn isFree narrow done
  rw [if_pos (quiet.trans packed.quiet)] at result
  have room : kilobyte.length ≤ (log'.cell log'.curBuf).getFreeLen := by
    rw [moved.room]
    exact packed.fits
  refine ⟨_, run_send initial packed.idle packed.quiet packed.fits result, moved.shape.append kilobyte,
    fun cell member => ?_, ?_, moved.oneBuffLen.trans packed.oneBuffLen, buffCnt, quiet.trans packed.quiet,
    packed.idle, packed.consumer, packed.persisted, ?_, ?_⟩
  · dsimp only
    rw [CRingLog.cell_modify_other (moved.shape.links.differ (List.mem_append_left _ member)), moved.data cell member,
      CRingLog.data_setFull]
    exact packed.brim_all cell member
  · dsimp only
    rw [show (log'.modify log'.curBuf (·.append kilobyte)).curBuf = log'.curBuf from rfl, CRingLog.cell_modify_self,
      CRingLog.append_aData room, moved.empty log'.curBuf (by simp)]
    exact length_kilobyte
  · rw [packed.accepted, List.replicate_succ']
    rfl
  · rw [List.length_append, List.length_singleton, Nat.add_mul sent 1, packed.total, Nat.add_mul full.length 1,
      Nat.one_mul, Nat.one_mul]

/-- A cell is filled, and the records after that go to the free cell behind it. -/
theorem Packed.fillNext (initial : CRingLog → Prop)
    (packed : s.Packed full (first :: rest) (30 * 1024 * 1024) count sent) (curSec : Nat) :
    ∃ s', (logSystem initial).Run s (kilobyteSteps curSec 30720) s' ∧
      s'.Packed (full ++ [s.log.curBuf]) rest (30 * 1024 * 1024) count (sent + 30720) := by
  obtain ⟨done, moved⟩ := packed.filled.moveOn_next curSec .succeeds
  obtain ⟨s₁, one, packed₁⟩ := packed.moves initial done rfl packed.buffCnt moved
  obtain ⟨s₂, others, packed₂⟩ := packed₁.sends initial curSec 30719 (by omega)
  rw [Nat.add_assoc] at packed₂
  refine ⟨s₂, ?_, packed₂⟩
  rw [show 30720 = 1 + 30719 from rfl, kilobyteSteps_add, kilobyteSteps_one]
  exact one.append others

/-- Below the limit they go to a new cell. -/
theorem Packed.grow (initial : CRingLog → Prop) (packed : s.Packed full [] (30 * 1024 * 1024) count sent)
    (curSec : Nat) (below : s.log.overLimit = false) :
    ∃ s' full', (logSystem initial).Run s (kilobyteSteps curSec 30720) s' ∧
      s'.Packed full' [] (30 * 1024 * 1024) (count + 1) (sent + 30720) := by
  obtain ⟨log', done, buffCnt, quiet, moved⟩ := packed.filled.moveOn_grow below curSec
  obtain ⟨s₁, one, packed₁⟩ := packed.moves initial done quiet (buffCnt.trans (congrArg (· + 1) packed.buffCnt)) moved
  obtain ⟨s₂, others, packed₂⟩ := packed₁.sends initial curSec 30719 (by omega)
  rw [Nat.add_assoc] at packed₂
  refine ⟨s₂, _, ?_, packed₂⟩
  rw [show 30720 = 1 + 30719 from rfl, kilobyteSteps_add, kilobyteSteps_one]
  exact one.append others

theorem Packed.overLimit_iff (packed : s.Packed full rest used count sent) (small : count ≤ 102) :
    s.log.overLimit = true ↔ count = 102 := by
  have product : 30 * 1024 * 1024 * (count + 1) < 2 ^ 32 := by omega
  rw [CRingLog.overLimit, packed.oneBuffLen, packed.buffCnt, LOGFILEMEMLIMIT, Nat.mod_eq_of_lt product,
    decide_eq_true_iff]
  omega

/-- The constructor's ring after so many records that both of its cells are full, and so many
more that it has grown `n` times and the new cells are full. -/
theorem packed_run {log : CRingLog} (initial : CRingLog → Prop)
    (built : log.Built shm₁ shm₂ shm₃ shm head second third) (size : log.oneBuffLen = 30 * 1024 * 1024)
    (curSec n : Nat) (below : n ≤ 99) :
    ∃ s full, (logSystem initial).Run (start log) (kilobyteSteps curSec ((n + 2) * 30720)) s ∧
      s.Packed full [] (30 * 1024 * 1024) (n + 3) ((n + 2) * 30720) := by
  induction n with
  | zero =>
    obtain ⟨_, _, empty, _⟩ := built.head_cell
    have shape := built.shape
    rw [← built.curBuf] at shape empty
    have begun : (start log).Packed [] [second] 0 3 0 :=
      ⟨shape, by simp, by rw [show (start log).log = log from rfl, empty]; rfl, size, built.buffCnt,
        built.lastLogFailTime, rfl, rfl, rfl, rfl, rfl⟩
    obtain ⟨s₁, run₁, packed₁⟩ := begun.sends initial curSec 30720 (by omega)
    obtain ⟨s₂, run₂, packed₂⟩ := Packed.fillNext initial packed₁ curSec
    refine ⟨s₂, _, ?_, packed₂⟩
    rw [show (0 + 2) * 30720 = 30720 + 30720 from rfl, kilobyteSteps_add]
    exact run₁.append run₂
  | succ n ih =>
    obtain ⟨s, full, run, packed⟩ := ih (by omega)
    have room : s.log.overLimit = false := by
      rw [← Bool.not_eq_true, packed.overLimit_iff (by omega)]
      omega
    obtain ⟨s', full', grows, packed'⟩ := packed.grow initial curSec room
    rw [show (n + 1 + 2) * 30720 = (n + 2) * 30720 + 30720 by omega]
    refine ⟨s', full', ?_, packed'⟩
    rw [kilobyteSteps_add]
    exact run.append grows

/-- At the memory limit the section moves on to the full cell at `m_pPrstBuf`, and takes the
time of the failure. -/
theorem Packed.limited (packed : s.Packed full [] (30 * 1024 * 1024) 102 sent) (curSec : Nat) :
    ∃ log', s.log.appendLocked curSec kilobyte .succeeds =
        (if curSec = 0 then .ok (log'.modify log'.curBuf (·.append kilobyte), true) else .ok (log', false)) ∧
      log'.lastLogFailTime = curSec ∧ log'.oneBuffLen = 30 * 1024 * 1024 ∧ log'.buffCnt = 102 ∧
      log'.Shape (full ++ [s.log.curBuf]) [] ∧
      ∀ cell ∈ full ++ [s.log.curBuf], (log'.cell cell).aData.length = 30 * 1024 * 1024 := by
  obtain ⟨isFree, narrow⟩ := packed.narrow
  have limit := (packed.overLimit_iff le_rfl).mpr rfl
  obtain ⟨done, moved⟩ := packed.filled.moveOn_limit limit curSec .succeeds
  refine ⟨_, CRingLog.appendLocked_of_moveOn isFree narrow done, rfl, packed.oneBuffLen, packed.buffCnt, moved.shape,
    fun cell member => ?_⟩
  rw [moved.data cell member, CRingLog.data_setFull]
  exact packed.brim_all cell member

/-- The state after the run below. -/
structure Overflowed (s : LogState) : Prop where
  buffCnt : s.log.buffCnt = 102
  persisted : s.persisted.length = 30 * 1024 * 1024
  accepted : s.accepted = List.replicate 3102720 kilobyte

end LogState

/-- The ring grows up to the memory limit, and one more record is refused. Then the consumer
writes the first cell out. -/
def overflowSteps : List LogStep := kilobyteSteps 7 3102720 ++ sendSteps 7 kilobyte ++ drainSteps

theorem LogState.overflow_run {log : CRingLog} (initial : CRingLog → Prop)
    (built : log.Built shm₁ shm₂ shm₃ shm head second third) (size : log.oneBuffLen = 30 * 1024 * 1024) :
    ∃ s, (logSystem initial).Run (start log) overflowSteps s ∧ s.Overflowed := by
  obtain ⟨s₁, full, fills, packed⟩ := packed_run initial built size 7 99 le_rfl
  obtain ⟨log₂, done, _, _, buffCnt, shape, brim⟩ := packed.limited 7
  rw [if_neg (by decide)] at done
  obtain ⟨first, others, cells⟩ : ∃ first others, full ++ [s₁.log.curBuf] = first :: others :=
    List.exists_cons_of_ne_nil (by simp)
  rw [cells] at shape brim
  have refused := run_send initial packed.idle packed.quiet packed.fits done
  obtain ⟨s₃, drains, freed⟩ := run_drain (s := { s₁ with log := log₂ }) initial shape packed.consumer
  refine ⟨s₃, (fills.append refused).append drains, freed.buffCnt.trans buffCnt, ?_,
    freed.accepted.trans packed.accepted⟩
  rw [freed.persisted, packed.persisted]
  exact brim first (by simp)

end WSlyh.Log
