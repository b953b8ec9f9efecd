import WSlyh.Log.Shape

/-! What the locked sections do to a ring of this shape, when cells can be allocated. -/

namespace WSlyh.Log

open Libc Lib

/-- The effect of a growth: one more cell, free and empty, behind `m_pCurBuf`. -/
structure CRingLog.Grown (log : CRingLog) (nextBuf : CellPtr) (log' : CRingLog) : Prop where
  next : ∀ other, (log'.cell other).next =
    if other.shmId = log'.curBuf.shmId then some nextBuf
    else if other.shmId = log.curBuf.shmId then some log'.curBuf else (log.cell other).next
  others : ∀ other : CellPtr, other.shmId ≠ log'.curBuf.shmId →
    (log'.cell other).status = (log.cell other).status ∧ (log'.cell other).aData = (log.cell other).aData ∧
      (log'.cell other).tolLength = (log.cell other).tolLength
  new : (log'.cell log'.curBuf).status = .free ∧ (log'.cell log'.curBuf).aData = [] ∧
    (log'.cell log'.curBuf).tolLength = log.oneBuffLen
  lookup : log'.shm.lookup (SHMKEY + log.buffCnt) = some log'.curBuf.shmId
  known : ∀ key shmId, log.shm.lookup key = some shmId → log'.shm.lookup key = some shmId
  prstBuf : log'.prstBuf = log.prstBuf
  buffCnt : log'.buffCnt = log.buffCnt + 1
  oneBuffLen : log'.oneBuffLen = log.oneBuffLen
  lastLogFailTime : log'.lastLogFailTime = log.lastLogFailTime

namespace CRingLog

variable {log log' : CRingLog} {full rest cells : List CellPtr} {cell : CellPtr} {curSec : Nat}

theorem grow_grown (log : CRingLog) (nextBuf : CellPtr) :
    ∃ log', log.grow nextBuf .succeeds = .ok log' ∧ log.Grown nextBuf log' := by
  obtain ⟨shm, newBuffer, done, created⟩ := log.shm.createCellBuffer_succeeds (SHMKEY + log.buffCnt) log.oneBuffLen
  have result : log.grow nextBuf .succeeds = .ok { log with
      shm := (shm.link log.curBuf newBuffer).link newBuffer nextBuf
      buffCnt := log.buffCnt + 1
      curBuf := newBuffer } := by
    simp only [grow, done, bind, Except.bind]
  refine ⟨_, result, ?_⟩
  have at_new : shm.deref newBuffer = .create newBuffer.shmId log.oneBuffLen := created.deref
  have old (other : CellPtr) (differ : other.shmId ≠ newBuffer.shmId) : shm.deref other = log.shm.deref other :=
    created.frame other differ
  exact {
    next := fun other => by
      simp only [cell, Shm.deref_link]
      split
      · rfl
      · rename_i differ
        rw [old other differ]
    others := fun other differ => by
      simp only [cell, Shm.deref_link]
      rw [old other differ]
      exact ⟨rfl, rfl, rfl⟩
    new := by
      simp only [cell, Shm.deref_link, at_new]
      exact ⟨rfl, rfl, rfl⟩
    lookup := created.lookup
    known := created.known
    prstBuf := rfl
    buffCnt := rfl
    oneBuffLen := rfl
    lastLogFailTime := rfl }

/-- The new cell has a segment of its own: its key is one that no cell of the ring has. -/
theorem Grown.fresh (grown : log.Grown nextBuf log') (links : log.Links cells) (member : cell ∈ cells) :
    cell.shmId ≠ log'.curBuf.shmId := by
  obtain ⟨j, used, found⟩ := links.keyed cell member
  intro same
  have found' := grown.known _ _ found
  rw [same] at found'
  have keys := Shm.lookup_injective found' grown.lookup
  omega

theorem Grown.links (grown : log.Grown log.prstBuf log') (links : log.Links (full ++ [log.curBuf])) :
    log'.Links (full ++ [log.curBuf] ++ [log'.curBuf]) := by
  have fresh (cell : CellPtr) (member : cell ∈ full ++ [log.curBuf]) := grown.fresh links member
  have split : full ++ [log.curBuf] ++ [log'.curBuf] = full ++ log.curBuf :: log'.curBuf :: [] := by simp
  refine ⟨?_, ?_, ?_, fun cell member => ?_, fun cell member => ?_⟩
  · rw [grown.prstBuf, split]
    refine links.ring.insert (fun member => fresh _ member rfl) (fun cell member => ?_) ?_ ?_
    · rw [List.append_nil] at member
      have own : cell.shmId ≠ log.curBuf.shmId := links.differ (by simpa using member)
      rw [grown.next, if_neg (fresh cell (List.mem_append_left _ member)), if_neg own]
    · rw [grown.next, if_neg (fresh _ (by simp)), if_pos rfl]
    · rw [grown.next, if_pos rfl]
      have last : (log.cell log.curBuf).next = ([] ++ [log.prstBuf]).head? := links.next_eq
      exact last.symm
  · rw [List.map_append, List.nodup_append]
    refine ⟨links.segments, by simp, ?_⟩
    intro shmId old shmId' new
    obtain ⟨cell, member, rfl⟩ := List.mem_map.mp old
    rw [List.map_singleton, List.mem_singleton] at new
    exact new ▸ fresh cell member
  · have := links.two
    rw [List.length_append]
    omega
  · rcases List.mem_append.mp member with old | new
    · obtain ⟨j, used, found⟩ := links.keyed cell old
      exact ⟨j, by rw [grown.buffCnt]; omega, grown.known _ _ found⟩
    · rw [List.mem_singleton.mp new]
      exact ⟨log.buffCnt, by rw [grown.buffCnt]; omega, grown.lookup⟩
  · rw [grown.oneBuffLen]
    rcases List.mem_append.mp member with old | new
    · rw [(grown.others cell (fresh cell old)).2.2]
      exact links.sized cell old
    · rw [List.mem_singleton.mp new]
      exact grown.new.2.2

/-- What a producer's section makes of the ring: `more` of the free cells are full. -/
structure Advances (log : CRingLog) (full free : List CellPtr) (log' : CRingLog)
    (more free' : List CellPtr) : Prop where
  shape : log'.Shape (full ++ more) free'
  prstBuf : log'.prstBuf = log.prstBuf
  oneBuffLen : log'.oneBuffLen = log.oneBuffLen
  count : (more ++ free').length + log.buffCnt = free.length + log'.buffCnt

/-- The full cells hold what they held, and `written` comes behind everything else. -/
structure Writes (log : CRingLog) (full free : List CellPtr) (written : Bytes) (log' : CRingLog)
    (more free' : List CellPtr) : Prop where
  data : ∀ cell ∈ full, (log'.cell cell).aData = (log.cell cell).aData
  contents : log'.contents (more ++ free') = log.contents free ++ written

theorem append_status (cell : CBufferCell) (logData : Bytes) : (cell.append logData).status = cell.status := by
  unfold CBufferCell.append
  split <;> rfl

theorem append_keeps (logData : Bytes) (cell : CBufferCell) :
    (cell.append logData).next = cell.next ∧ (cell.append logData).tolLength = cell.tolLength := by
  unfold CBufferCell.append
  split <;> exact ⟨rfl, rfl⟩

theorem append_aData {cell : CBufferCell} {logData : Bytes} (room : logData.length ≤ cell.getFreeLen) :
    (cell.append logData).aData = cell.aData ++ logData := by
  rw [CBufferCell.append, if_neg (by omega)]

theorem append_ne_nil {cell : CBufferCell} (logData : Bytes) (nonempty : cell.aData ≠ []) :
    (cell.append logData).aData ≠ [] := by
  unfold CBufferCell.append
  split
  · exact nonempty
  · simp [nonempty]

/-- `m_pCurBuf` is not among the cells that have to be empty. -/
theorem Shape.differ_of_tail {free : List CellPtr} (shape : log.Shape full free) (member : cell ∈ free.tail) :
    cell.shmId ≠ log.curBuf.shmId := by
  cases free with
  | nil => cases member
  | cons first rest =>
    have cur : first = log.curBuf := Option.some.inj shape.cur
    rw [← cur]
    exact shape.links.differ (List.mem_append_right _ member)

theorem Shape.append {free : List CellPtr} (shape : log.Shape full free) (logLine : Bytes) :
    (log.modify log.curBuf (·.append logLine)).Shape full free := by
  refine ⟨shape.links.modify _ (append_keeps logLine), ⟨fun cell member => ?_, fun cell member => ?_,
    fun cell member => ?_⟩, shape.cur⟩
  · obtain ⟨status, nonempty⟩ := shape.marks.isFull cell member
    rw [cell_modify]
    split
    · exact ⟨(append_status _ _).trans status, append_ne_nil _ nonempty⟩
    · exact ⟨status, nonempty⟩
  · rw [cell_modify]
    split
    · exact (append_status _ _).trans (shape.marks.isFree cell member)
    · exact shape.marks.isFree cell member
  · rw [cell_modify_other (shape.differ_of_tail member)]
    exact shape.marks.empty cell member

/-- Appending to a free `m_pCurBuf` that has room. -/
theorem Shape.writes_append (shape : log.Shape full (log.curBuf :: rest))
    (room : logLine.length ≤ (log.cell log.curBuf).getFreeLen) :
    log.Writes full (log.curBuf :: rest) logLine (log.modify log.curBuf (·.append logLine)) []
      (log.curBuf :: rest) := by
  have restEmpty : log.contents rest = [] := contents_empty shape.marks.empty
  refine ⟨fun cell member => ?_, ?_⟩
  · rw [cell_modify_other (shape.links.differ (List.mem_append_left _ member))]
  · have others (cell : CellPtr) (member : cell ∈ rest) :
        ((log.modify log.curBuf (·.append logLine)).cell cell).aData = (log.cell cell).aData := by
      rw [cell_modify_other (shape.links.differ (List.mem_append_right _ member))]
    rw [List.nil_append, contents_cons, contents_cons, cell_modify_self, append_aData room,
      contents_congr others, restEmpty]
    simp

/-- `m_pCurBuf` has just been marked as full, and still has to move on. -/
structure Filled (log : CRingLog) (full rest : List CellPtr) : Prop where
  links : log.Links (full ++ log.curBuf :: rest)
  marks : log.Marks (full ++ [log.curBuf]) rest
  empty : ∀ cell ∈ rest, (log.cell cell).aData = []

theorem Shape.filled (shape : log.Shape full (log.curBuf :: rest)) (nonempty : (log.cell log.curBuf).aData ≠ []) :
    (log.modify log.curBuf setFull).Filled full rest := by
  have others (cell : CellPtr) (member : cell ∈ full ++ rest) :
      (log.modify log.curBuf setFull).cell cell = log.cell cell :=
    cell_modify_other (shape.links.differ member) setFull
  have empty : ∀ cell ∈ rest, ((log.modify log.curBuf setFull).cell cell).aData = [] := fun cell member => by
    rw [others cell (List.mem_append_right _ member)]
    exact shape.marks.empty cell member
  refine ⟨shape.links.modify _ fun _ => ⟨rfl, rfl⟩, ⟨fun cell member => ?_, fun cell member => ?_,
    fun cell member => empty cell (List.mem_of_mem_tail member)⟩, empty⟩
  · rcases List.mem_append.mp member with old | new
    · rw [others cell (List.mem_append_left _ old)]
      exact shape.marks.isFull cell old
    · rw [show cell = log.curBuf from List.mem_singleton.mp new, cell_modify_self]
      exact ⟨rfl, nonempty⟩
  · rw [others cell (List.mem_append_right _ member)]
    exact shape.marks.isFree cell (List.mem_cons_of_mem _ member)

/-- Where the record goes once `m_pCurBuf` is full: to an empty cell, or nowhere because the
memory limit is reached. -/
structure Moved (log : CRingLog) (full rest : List CellPtr) (curSec : Nat) (log' : CRingLog)
    (free' : List CellPtr) : Prop where
  shape : log'.Shape (full ++ [log.curBuf]) free'
  data : ∀ cell ∈ full ++ [log.curBuf], (log'.cell cell).aData = (log.cell cell).aData
  empty : ∀ cell ∈ free', (log'.cell cell).aData = []
  prstBuf : log'.prstBuf = log.prstBuf
  oneBuffLen : log'.oneBuffLen = log.oneBuffLen
  count : free'.length + log.buffCnt = rest.length + log'.buffCnt
  outcome : free' ≠ [] ∧ log'.lastLogFailTime = log.lastLogFailTime ∨
    free' = [] ∧ log'.lastLogFailTime = curSec ∧ rest = [] ∧ log.overLimit

theorem Filled.moveOn_next (filled : log.Filled full (first :: rest)) (curSec : Nat) (allocation : Allocation) :
    log.moveOn curSec allocation = .ok { log with curBuf := first } ∧
      log.Moved full (first :: rest) curSec { log with curBuf := first } (first :: rest) := by
  have next : (log.cell log.curBuf).next = some first := filled.links.next_eq
  have notFull : ¬ (log.cell first).status = .full := by simp [filled.marks.isFree first (by simp)]
  have links := filled.links.point first log.lastLogFailTime
  rw [List.append_cons] at links
  refine ⟨?_, ⟨links, filled.marks.point _ _, rfl⟩, fun _ _ => rfl, filled.empty, rfl, rfl, rfl, .inl ⟨by simp, rfl⟩⟩
  rw [CRingLog.moveOn, next]
  exact if_neg notFull

/-- With no free cell left behind `m_pCurBuf`, the next one is full and is `m_pPrstBuf`. -/
theorem Filled.next_full (filled : log.Filled full []) :
    (log.cell log.curBuf).next = some log.prstBuf ∧ (log.cell log.prstBuf).status = .full := by
  obtain ⟨cells, start⟩ := filled.links.ring.eq_cons
  exact ⟨filled.links.next_eq, (filled.marks.isFull log.prstBuf (by rw [start]; simp)).1⟩

theorem Filled.moveOn_limit (filled : log.Filled full []) (limit : log.overLimit = true) (curSec : Nat)
    (allocation : Allocation) :
    log.moveOn curSec allocation = .ok { log with curBuf := log.prstBuf, lastLogFailTime := curSec } ∧
      log.Moved full [] curSec { log with curBuf := log.prstBuf, lastLogFailTime := curSec } [] := by
  obtain ⟨next, status⟩ := filled.next_full
  have links := filled.links.point log.prstBuf curSec
  rw [List.append_cons] at links
  refine ⟨?_, ⟨links, filled.marks.point _ _, rfl⟩, fun _ _ => rfl, by simp, rfl, rfl, rfl,
    .inr ⟨rfl, rfl, rfl, limit⟩⟩
  rw [CRingLog.moveOn, next]
  simp [status, limit]

theorem Filled.moveOn_grow (filled : log.Filled full []) (limit : log.overLimit = false) (curSec : Nat) :
    ∃ log', log.moveOn curSec .succeeds = .ok log' ∧ log'.buffCnt = log.buffCnt + 1 ∧
      log'.lastLogFailTime = log.lastLogFailTime ∧ log.Moved full [] curSec log' [log'.curBuf] := by
  obtain ⟨next, status⟩ := filled.next_full
  obtain ⟨log', done, grown⟩ := log.grow_grown log.prstBuf
  have fresh (cell : CellPtr) (member : cell ∈ full ++ [log.curBuf]) := grown.fresh filled.links member
  refine ⟨log', ?_, grown.buffCnt, grown.lastLogFailTime,
    ⟨grown.links filled.links, ⟨fun cell member => ?_, ?_, ?_⟩, rfl⟩, fun cell member => ?_, ?_,
      grown.prstBuf, grown.oneBuffLen, ?_, .inl ⟨by simp, grown.lastLogFailTime⟩⟩
  · rw [CRingLog.moveOn, next]
    simp [status, limit, done]
  · obtain ⟨sameStatus, sameData, _⟩ := grown.others cell (fresh cell member)
    rw [sameStatus, sameData]
    exact filled.marks.isFull cell member
  · simpa using grown.new.1
  · simp
  · exact (grown.others cell (fresh cell member)).2.1
  · simpa using grown.new.2.1
  · have := grown.buffCnt
    simp only [List.length_singleton, List.length_nil]
    omega

theorem Filled.moveOn (filled : log.Filled full rest) (curSec : Nat) :
    ∃ log' free', log.moveOn curSec .succeeds = .ok log' ∧ log.Moved full rest curSec log' free' := by
  cases rest with
  | cons first rest => exact ⟨_, _, filled.moveOn_next curSec .succeeds⟩
  | nil =>
    cases limit : log.overLimit with
    | true => exact ⟨_, _, filled.moveOn_limit limit curSec .succeeds⟩
    | false =>
      obtain ⟨log', done, _, _, moved⟩ := filled.moveOn_grow limit curSec
      exact ⟨log', _, done, moved⟩

/-- The record does not fit, the next cell is full, and no cell may be added. -/
def Overflows (log : CRingLog) (logLine : Bytes) : Prop :=
  (log.cell log.curBuf).status = .free ∧ (log.cell log.curBuf).getFreeLen < logLine.length ∧
    (∃ nextBuf, (log.cell log.curBuf).next = some nextBuf ∧ (log.cell nextBuf).status = .full) ∧ log.overLimit

theorem data_setFull (log : CRingLog) (cell other : CellPtr) :
    ((log.modify cell setFull).cell other).aData = (log.cell other).aData := by
  rw [cell_modify]
  split <;> rfl

/-- With no free cell left behind `m_pCurBuf`, the next one is full. -/
theorem Shape.overflows (shape : log.Shape full [log.curBuf]) (isFree : (log.cell log.curBuf).status = .free)
    (narrow : (log.cell log.curBuf).getFreeLen < logLine.length) (limit : log.overLimit) : log.Overflows logLine := by
  refine ⟨isFree, narrow, ⟨log.prstBuf, shape.links.next_eq, ?_⟩, limit⟩
  obtain ⟨cells, start⟩ := shape.links.ring.eq_cons
  cases full with
  | nil =>
    have two := shape.links.two
    simp at two
  | cons first full =>
    rw [← (List.cons.inj start).1]
    exact (shape.marks.isFull first (by simp)).1

theorem appendLocked_of_moveOn {logLine : Bytes} (isFree : (log.cell log.curBuf).status = .free)
    (narrow : (log.cell log.curBuf).getFreeLen < logLine.length)
    (done : (log.modify log.curBuf setFull).moveOn curSec allocation = .ok log') :
    log.appendLocked curSec logLine allocation =
      if log'.lastLogFailTime = 0 then .ok (log'.modify log'.curBuf (·.append logLine), true)
      else .ok (log', false) := by
  have notHere : ¬ ((log.cell log.curBuf).status = .free ∧ (log.cell log.curBuf).getFreeLen ≥ logLine.length) := by
    omega
  simp only [appendLocked, if_neg notHere, if_pos isFree, done, bind, Except.bind]

/-- A record that does not fit although no cell is smaller finds something in the cell. -/
theorem Shape.nonempty_of_narrow {logLine : Bytes} (shape : log.Shape full (log.curBuf :: rest))
    (narrow : (log.cell log.curBuf).getFreeLen < logLine.length) (fits : logLine.length ≤ log.oneBuffLen) :
    (log.cell log.curBuf).aData ≠ [] := by
  have sized := shape.links.sized log.curBuf (by simp)
  intro empty
  simp only [CBufferCell.getFreeLen, CBufferCell.curLength, empty, List.length_nil] at narrow
  omega

theorem Moved.room {free' : List CellPtr} (moved : log.Moved full rest curSec log' (log'.curBuf :: free')) :
    (log'.cell log'.curBuf).getFreeLen = log.oneBuffLen := by
  rw [CBufferCell.getFreeLen, CBufferCell.curLength, moved.empty log'.curBuf (by simp),
    moved.shape.links.sized log'.curBuf (by simp), moved.oneBuffLen]
  rfl

private theorem Shape.appendLocked_filled (shape : log.Shape full (log.curBuf :: rest))
    (isFree : (log.cell log.curBuf).status = .free)
    (narrow : (log.cell log.curBuf).getFreeLen < logLine.length) (fits : logLine.length ≤ log.oneBuffLen) :
    ∃ log' accepted more free', log.appendLocked curSec logLine .succeeds = .ok (log', accepted) ∧
      log.Advances full (log.curBuf :: rest) log' more free' ∧
      (¬ (log.Overflows logLine ∧ curSec = 0) →
        log.Writes full (log.curBuf :: rest) (if accepted then logLine else []) log' more free') := by
  have restEmpty : log.contents rest = [] := contents_empty shape.marks.empty
  obtain ⟨log', free', done, moved⟩ := (shape.filled (shape.nonempty_of_narrow narrow fits)).moveOn curSec
  have data (cell : CellPtr) (member : cell ∈ full ++ [log.curBuf]) :
      (log'.cell cell).aData = (log.cell cell).aData := (moved.data cell member).trans (data_setFull ..)
  have result := appendLocked_of_moveOn isFree narrow done
  have emptied : log'.contents free' = [] := contents_empty moved.empty
  have before : log.contents (log.curBuf :: rest) = (log.cell log.curBuf).aData := by
    rw [contents_cons, restEmpty, List.append_nil]
  have count : ([log.curBuf] ++ free').length + log.buffCnt = (log.curBuf :: rest).length + log'.buffCnt := by
    have count := moved.count
    have same : (log.modify log.curBuf setFull).buffCnt = log.buffCnt := rfl
    simp only [List.length_append, List.length_cons, List.length_nil]
    omega
  by_cases writes : log'.lastLogFailTime = 0
  · rw [if_pos writes] at result
    refine ⟨_, _, [log.curBuf], free', result, ⟨moved.shape.append logLine, moved.prstBuf, moved.oneBuffLen, count⟩,
      fun harmless => ?_⟩
    rcases moved.outcome with ⟨some, _⟩ | ⟨_, time, noRest, limit⟩
    · obtain ⟨first, tail, rfl⟩ := List.exists_cons_of_ne_nil some
      have cur : first = log'.curBuf := Option.some.inj moved.shape.cur
      subst cur
      have room : logLine.length ≤ (log'.cell log'.curBuf).getFreeLen := by
        rw [moved.room]
        exact fits
      have written := moved.shape.writes_append room
      refine ⟨fun cell member => (written.data cell (List.mem_append_left _ member)).trans
        (data cell (List.mem_append_left _ member)), ?_⟩
      have behind := written.contents
      rw [List.nil_append, emptied, List.nil_append] at behind
      rw [contents_append, behind, before, contents_cons, contents_nil, List.append_nil,
        written.data log.curBuf (List.mem_append_right _ (List.mem_singleton_self _)), data log.curBuf (by simp),
        if_pos rfl]
    · subst noRest
      exact absurd ⟨shape.overflows isFree narrow limit, time.symm.trans writes⟩ harmless
  · rw [if_neg writes] at result
    refine ⟨_, _, [log.curBuf], free', result, ⟨moved.shape, moved.prstBuf, moved.oneBuffLen, count⟩,
      fun _ => ⟨fun cell member => data cell (List.mem_append_left _ member), ?_⟩⟩
    rw [contents_append, emptied, before, contents_cons, contents_nil, data log.curBuf (by simp)]
    simp

/-- The locked section of a producer. -/
theorem Shape.appendLocked {free : List CellPtr} (shape : log.Shape full free)
    (fits : logLine.length ≤ log.oneBuffLen) (curSec : Nat) :
    ∃ log' accepted more free', log.appendLocked curSec logLine .succeeds = .ok (log', accepted) ∧
      log.Advances full free log' more free' ∧
      (¬ (log.Overflows logLine ∧ curSec = 0) →
        log.Writes full free (if accepted then logLine else []) log' more free') := by
  by_cases isFree : (log.cell log.curBuf).status = .free
  · obtain ⟨rest, rfl⟩ := shape.free_eq isFree
    by_cases room : (log.cell log.curBuf).getFreeLen ≥ logLine.length
    · refine ⟨log.modify log.curBuf (·.append logLine), true, [], log.curBuf :: rest, ?_, ⟨?_, rfl, rfl, rfl⟩,
        fun _ => shape.writes_append room⟩
      · rw [CRingLog.appendLocked, if_pos ⟨isFree, room⟩]
      · rw [List.append_nil]
        exact shape.append logLine
    · exact shape.appendLocked_filled isFree (by omega) fits
  · refine ⟨{ log with lastLogFailTime := curSec }, false, [], free, ?_, ⟨?_, rfl, rfl, rfl⟩,
      fun _ => ⟨fun _ _ => rfl, ?_⟩⟩
    · rw [CRingLog.appendLocked, if_neg (fun both => isFree both.1), if_neg isFree]
    · rw [List.append_nil]
      exact ⟨shape.links.point _ _, shape.marks.point _ _, shape.cur⟩
    · simp [contents, CRingLog.cell]

/-- The consumer's check: a cell that holds something is full when it goes on to write. -/
theorem Shape.checkLocked {free : List CellPtr} (shape : log.Shape full free) :
    ∃ log' go full' free', log.checkLocked = .ok (log', go) ∧ log'.Shape full' free' ∧
      full' ++ free' = full ++ free ∧ (∀ cell, (log'.cell cell).aData = (log.cell cell).aData) ∧
      log'.oneBuffLen = log.oneBuffLen ∧ log'.buffCnt = log.buffCnt ∧ (go = true → full' ≠ []) := by
  obtain ⟨cells, start⟩ := shape.links.ring.eq_cons
  by_cases empty : (log.cell log.prstBuf).isEmpty = true
  · exact ⟨log, false, full, free, by rw [CRingLog.checkLocked, if_pos empty], shape, rfl, fun _ => rfl,
      rfl, rfl, nofun⟩
  have nonempty : (log.cell log.prstBuf).aData ≠ [] := by
    intro none
    simp [CBufferCell.isEmpty, CBufferCell.curLength, none] at empty
  cases full with
  | cons first full =>
    have status := (shape.marks.isFull first (by simp)).1
    rw [(List.cons.inj start).1] at status
    have busy : ¬ (log.cell log.prstBuf).status = .free := by simp [status]
    exact ⟨log, true, first :: full, free, by rw [CRingLog.checkLocked, if_neg empty, if_neg busy], shape, rfl,
      fun _ => rfl, rfl, rfl, fun _ => by simp⟩
  | nil =>
    rw [List.nil_append] at start
    subst start
    have cur : log.prstBuf = log.curBuf := Option.some.inj shape.cur
    have status := shape.marks.isFree log.prstBuf (by simp)
    rw [cur] at shape nonempty
    have filled := shape.filled nonempty
    have next := filled.links.next_eq
    cases cells with
    | nil =>
      have two := shape.links.two
      simp at two
    | cons second rest =>
      refine ⟨{ log.modify log.curBuf setFull with curBuf := second }, true, [log.curBuf], second :: rest, ?_,
        ⟨filled.links.point _ _, filled.marks.point _ _, rfl⟩, by rw [cur]; rfl,
        fun cell => data_setFull log log.curBuf cell, rfl, rfl, fun _ => by simp⟩
      have goes : ((log.modify log.curBuf setFull).cell log.curBuf).next = some second := next
      rw [CRingLog.checkLocked, if_neg empty, if_pos status, if_neg (by simp [cur])]
      dsimp only
      have same : (log.modify log.curBuf setFull).curBuf = log.curBuf := rfl
      rw [same, goes]

/-- Clearing the cell at `m_pPrstBuf`, which comes last from now on. -/
theorem Shape.clearLocked {free : List CellPtr} (shape : log.Shape (first :: full) free) :
    ∃ log', log.clearLocked = .ok log' ∧ log'.Shape full (free ++ [first]) ∧
      log'.contents (full ++ free ++ [first]) = log.contents (full ++ free) ∧
      log'.oneBuffLen = log.oneBuffLen ∧ log'.buffCnt = log.buffCnt := by
  have start : first = log.prstBuf := Option.some.inj shape.links.ring.head
  subst start
  have before : log.Links ([] ++ log.prstBuf :: (full ++ free)) := shape.links
  have links : (log.modify log.prstBuf CBufferCell.clearBuffer).Links ([] ++ log.prstBuf :: (full ++ free)) :=
    before.modify log.prstBuf fun _ => ⟨rfl, rfl⟩
  have others (cell : CellPtr) (member : cell ∈ full ++ free) :
      (log.modify log.prstBuf CBufferCell.clearBuffer).cell cell = log.cell cell :=
    cell_modify_other (before.differ member) _
  have next : ((log.modify log.prstBuf CBufferCell.clearBuffer).cell log.prstBuf).next =
      (full ++ free ++ [log.prstBuf]).head? := links.next_eq
  obtain ⟨second, rest, split⟩ : ∃ second rest, full ++ free = second :: rest := by
    cases cells : full ++ free with
    | nil =>
      have two := shape.links.two
      rw [List.cons_append, cells] at two
      simp at two
    | cons second rest => exact ⟨second, rest, rfl⟩
  have cells : (log.prstBuf :: full) ++ free = log.prstBuf :: second :: rest := by rw [List.cons_append, split]
  have turned : full ++ (free ++ [log.prstBuf]) = second :: rest ++ [log.prstBuf] := by
    rw [← List.append_assoc, split]
  have perm : (second :: rest ++ [log.prstBuf]).Perm (log.prstBuf :: second :: rest) := List.perm_append_singleton _ _
  rw [split] at next
  refine ⟨{ log.modify log.prstBuf CBufferCell.clearBuffer with
      prstBuf := second
      prstBCShmId := ((log.modify log.prstBuf CBufferCell.clearBuffer).cell second).shmId }, ?_, ?_, ?_, rfl, rfl⟩
  · rw [CRingLog.clearLocked]
    dsimp only
    have same : (log.modify log.prstBuf CBufferCell.clearBuffer).prstBuf = log.prstBuf := rfl
    rw [same, next]
    rfl
  · rw [List.nil_append, split] at links
    refine ⟨⟨?_, ?_, ?_, ?_, ?_⟩, ⟨fun cell member => ?_, fun cell member => ?_, fun cell member => ?_⟩, ?_⟩
    · rw [turned]
      exact links.ring.rotate
    · rw [turned, (perm.map CellPtr.shmId).nodup_iff]
      exact links.segments
    · rw [turned, perm.length_eq]
      exact links.two
    · rw [turned]
      exact fun cell member => links.keyed cell (perm.mem_iff.mp member)
    · rw [turned]
      exact fun cell member => links.sized cell (perm.mem_iff.mp member)
    · have marked := shape.marks.isFull cell (List.mem_cons_of_mem _ member)
      rw [← others cell (List.mem_append_left _ member)] at marked
      exact marked
    · rcases List.mem_append.mp member with old | new
      · have marked := shape.marks.isFree cell old
        rw [← others cell (List.mem_append_right _ old)] at marked
        exact marked
      · rw [List.mem_singleton.mp new]
        exact congrArg CBufferCell.status (cell_modify_self log log.prstBuf CBufferCell.clearBuffer)
    · have cleared : ((log.modify log.prstBuf CBufferCell.clearBuffer).cell log.prstBuf).aData = [] :=
        congrArg CBufferCell.aData (cell_modify_self log log.prstBuf CBufferCell.clearBuffer)
      cases free with
      | nil => cases member
      | cons current free =>
        rcases List.mem_append.mp member with old | new
        · have empty := shape.marks.empty cell old
          rw [← others cell (List.mem_append_right _ (List.mem_cons_of_mem _ old))] at empty
          exact empty
        · rw [List.mem_singleton.mp new]
          exact cleared
    · have cur := shape.cur
      cases free <;> exact cur
  · change (log.modify log.prstBuf CBufferCell.clearBuffer).contents _ = _
    have same : (log.modify log.prstBuf CBufferCell.clearBuffer).contents (full ++ free) =
        log.contents (full ++ free) := contents_congr fun cell member => by rw [others cell member]
    rw [contents_append, same, contents_cons, cell_modify_self]
    exact List.append_nil _

end CRingLog

end WSlyh.Log
