import WSlyh.Log.Cell

/-! The ring log: its constructor, the critical section of `TryAppendLog`, and the sections
of `PersistLog`. -/

namespace WSlyh.Log

open Libc

def LOGFILEMEMLIMIT : Nat := 3 * 1024 * 1024 * 1024
def RELOGTHRESOLD : Nat := 5
def SHMKEY : Int := 500234

/-- `prstBCShmId` is the number in the segment that `m_pPrstBCShmId` points to. -/
structure CRingLog where
  shm : Shm
  buffCnt : Nat
  curBuf : CellPtr
  prstBuf : CellPtr
  lastLogFailTime : Nat
  oneBuffLen : Nat
  prstBCShmId : Int

/-- `IPC_RMID`: the key no longer leads to the segment. -/
def Shm.remove (shm : Shm) (shmId : Int) : Shm :=
  { shm with
    segments := shm.segments.filter (·.2 != shmId)
    fresh := fun entry member => shm.fresh entry (List.mem_of_mem_filter member)
    distinct := shm.distinct.sublist (List.filter_sublist.map _) }

/-- The loop of `GetPrstCBShmId` that removes the ring of an earlier run; `none` when the
rounds do not bring it back to the head. -/
def Shm.removeRing (shm : Shm) (headCBShmId : Int) : Nat → Int → Except Fault (Option Shm)
  | 0, _ => .ok none
  | rounds + 1, curCBShmId =>
    if shm.segments.any (·.2 == curCBShmId) then
      let nextCBShmId := (shm.cell curCBShmId).nextShmId
      let shm := shm.remove curCBShmId
      if headCBShmId = nextCBShmId then .ok (some shm) else shm.removeRing headCBShmId rounds nextCBShmId
    else .error .badAddress

/-- `GetPrstCBShmId`, where `index` is the number that an earlier run has left. -/
def Shm.getPrstCBShmId (shm : Shm) (index : Option Int) (rounds : Nat) : Except Fault (Option Shm) :=
  match index with
  | none => .ok (some shm)
  | some headCBShmId => shm.removeRing headCBShmId rounds headCBShmId

/-- The loop of the constructor: `cells` more cells behind `prev`, all with one key. It
returns the last one, and `none` where the process exits. -/
def Shm.chainCells (shm : Shm) (oneBuffLen : Nat) (prev : CellPtr) :
    List Allocation → Except Fault (Option (Shm × CellPtr))
  | [] => .ok (some (shm, prev))
  | allocation :: allocations => do
    match ← shm.createCellBuffer (SHMKEY + 1) oneBuffLen allocation with
    | (_, none) => .ok none
    | (shm, some current) => (shm.link prev current).chainCells oneBuffLen current allocations

/-- The cells of the constructor, where `m_iBuffCnt` is 3. -/
def CRingLog.construct (shm : Shm) (oneBuffLen : Nat) (first second third : Allocation) :
    Except Fault (Option CRingLog) := do
  match ← shm.createCellBuffer SHMKEY oneBuffLen first with
  | (_, none) => .ok none
  | (shm, some head) =>
    match ← shm.chainCells oneBuffLen head [second, third] with
    | none => .ok none
    | some (shm, prev) =>
      let shm := shm.link prev head
      .ok (some {
        shm
        buffCnt := 3
        curBuf := head
        prstBuf := head
        lastLogFailTime := 0
        oneBuffLen
        prstBCShmId := (shm.deref head).shmId })

/-- The constructor. It first removes the ring that the index of an earlier run leads to. -/
def CRingLog.create (shm : Shm) (index : Option Int) (rounds oneBuffLen : Nat) (first second third : Allocation) :
    Except Fault (Option CRingLog) := do
  match ← shm.getPrstCBShmId index rounds with
  | none => .ok none
  | some shm => CRingLog.construct shm oneBuffLen first second third

def CRingLog.cell (log : CRingLog) (cell : CellPtr) : CBufferCell := log.shm.deref cell

def CRingLog.modify (log : CRingLog) (cell : CellPtr) (change : CBufferCell → CBufferCell) : CRingLog :=
  { log with shm := log.shm.modify cell change }

/-- The throttle at the start of `TryAppendLog`, in `uint64_t`. -/
def CRingLog.throttled (log : CRingLog) (curSec : Nat) : Bool :=
  log.lastLogFailTime != 0 && (curSec + 2 ^ 64 - log.lastLogFailTime) % 2 ^ 64 < RELOGTHRESOLD

/-- The product is made in `uint32_t`. -/
def CRingLog.overLimit (log : CRingLog) : Bool :=
  log.oneBuffLen * (log.buffCnt + 1) % 2 ^ 32 > LOGFILEMEMLIMIT

/-- A new cell between `m_pCurBuf` and the cell behind it. -/
def CRingLog.grow (log : CRingLog) (nextBuf : CellPtr) (allocation : Allocation) : Except Fault CRingLog := do
  match ← log.shm.createCellBuffer (SHMKEY + log.buffCnt) log.oneBuffLen allocation with
  | (_, none) => .error .nullCell
  | (shm, some newBuffer) =>
    .ok { log with
      shm := (shm.link log.curBuf newBuffer).link newBuffer nextBuf
      buffCnt := log.buffCnt + 1
      curBuf := newBuffer }

def setFull (cell : CBufferCell) : CBufferCell := { cell with status := .full }

/-- From the full `m_pCurBuf` to the cell that the record goes to. -/
def CRingLog.moveOn (log : CRingLog) (curSec : Nat) (allocation : Allocation) : Except Fault CRingLog :=
  match (log.cell log.curBuf).next with
  | none => .error .nullCell
  | some nextBuf =>
    if (log.cell nextBuf).status = .full then
      if log.overLimit then .ok { log with curBuf := nextBuf, lastLogFailTime := curSec }
      else log.grow nextBuf allocation
    else .ok { log with curBuf := nextBuf }

/-- The locked section of `TryAppendLog`. The flag tells whether it came to `Append`. -/
def CRingLog.appendLocked (log : CRingLog) (curSec : Nat) (logLine : Bytes) (allocation : Allocation) :
    Except Fault (CRingLog × Bool) :=
  if (log.cell log.curBuf).status = .free ∧ (log.cell log.curBuf).getFreeLen ≥ logLine.length then
    .ok (log.modify log.curBuf (·.append logLine), true)
  else if (log.cell log.curBuf).status = .free then do
    let log ← (log.modify log.curBuf setFull).moveOn curSec allocation
    if log.lastLogFailTime = 0 then .ok (log.modify log.curBuf (·.append logLine), true) else .ok (log, false)
  else .ok ({ log with lastLogFailTime := curSec }, false)

/-- The first locked section of `PersistLog`, after the wait. The flag tells whether it goes
on to write. -/
def CRingLog.checkLocked (log : CRingLog) : Except Fault (CRingLog × Bool) :=
  if (log.cell log.prstBuf).isEmpty then .ok (log, false)
  else if (log.cell log.prstBuf).status = .free then
    if log.curBuf ≠ log.prstBuf then .error .assertion
    else
      let log := log.modify log.curBuf setFull
      match (log.cell log.curBuf).next with
      | none => .error .nullCell
      | some nextBuf => .ok ({ log with curBuf := nextBuf }, true)
  else .ok (log, true)

/-- The second locked section of `PersistLog`. -/
def CRingLog.clearLocked (log : CRingLog) : Except Fault CRingLog :=
  let log := log.modify log.prstBuf CBufferCell.clearBuffer
  match (log.cell log.prstBuf).next with
  | none => .error .nullCell
  | some nextBuf => .ok { log with prstBuf := nextBuf, prstBCShmId := (log.cell nextBuf).shmId }

end WSlyh.Log
