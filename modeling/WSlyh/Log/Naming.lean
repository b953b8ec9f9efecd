import WSlyh.Lib.Transition
import WSlyh.Log.Landing

/-! The ids in the cells name the same ring as the pointers: the number in the index segment
is the id of `m_pPrstBuf`, and from there on `m_iNextShmId` leads through the segments of the
cells in the order of `m_pNext`. -/

namespace WSlyh.Log

open Libc Lib

/-- The id in the cell of a segment. -/
def Shm.nextId (shm : Shm) (shmId : Int) : Option Int := some (shm.cell shmId).nextShmId

structure CRingLog.Named (log : CRingLog) (cells : List CellPtr) : Prop where
  own : ∀ cell ∈ cells, (log.cell cell).shmId = cell.shmId
  ring : Circular log.shm.nextId log.prstBCShmId (cells.map CellPtr.shmId)

/-- Nothing has changed that the pointers and the ids go by. -/
structure CRingLog.SameIds (log log' : CRingLog) : Prop where
  next : ∀ cell, (log'.cell cell).next = (log.cell cell).next
  nextShmId : ∀ cell, (log'.cell cell).nextShmId = (log.cell cell).nextShmId
  shmId : ∀ cell, (log'.cell cell).shmId = (log.cell cell).shmId
  prstBuf : log'.prstBuf = log.prstBuf
  prstBCShmId : log'.prstBCShmId = log.prstBCShmId

/-- The ids name the ring `cells'`, which no cell of `cells` has left. -/
structure CRingLog.Carries (log' : CRingLog) (cells cells' : List CellPtr) : Prop where
  named : log'.Named cells'
  stay : ∀ cell ∈ cells, cell ∈ cells'

/-- What a growth does to the ids. -/
structure CRingLog.GrownIds (log : CRingLog) (nextBuf : CellPtr) (log' : CRingLog) : Prop where
  nextShmId : nextBuf.shmId ≠ log'.curBuf.shmId → ∀ other, (log'.cell other).nextShmId =
    if other.shmId = log'.curBuf.shmId then (log.cell nextBuf).shmId
    else if other.shmId = log.curBuf.shmId then log'.curBuf.shmId else (log.cell other).nextShmId
  others : ∀ other : CellPtr, other.shmId ≠ log'.curBuf.shmId → (log'.cell other).shmId = (log.cell other).shmId
  new : (log'.cell log'.curBuf).shmId = log'.curBuf.shmId
  prstBCShmId : log'.prstBCShmId = log.prstBCShmId

namespace CRingLog

variable {log log' : CRingLog} {cell : CellPtr} {full free cells cells' cells'' : List CellPtr} {curSec : Nat}

theorem SameIds.refl (log : CRingLog) : log.SameIds log :=
  ⟨fun _ => rfl, fun _ => rfl, fun _ => rfl, rfl, rfl⟩

theorem SameIds.trans {log'' : CRingLog} (first : log.SameIds log') (second : log'.SameIds log'') :
    log.SameIds log'' := by
  constructor
  · intro cell
    exact (second.next cell).trans (first.next cell)
  · intro cell
    exact (second.nextShmId cell).trans (first.nextShmId cell)
  · intro cell
    exact (second.shmId cell).trans (first.shmId cell)
  · exact second.prstBuf.trans first.prstBuf
  · exact second.prstBCShmId.trans first.prstBCShmId

theorem sameIds_modify (log : CRingLog) (cell : CellPtr) (change : CBufferCell → CBufferCell)
    (keeps : ∀ c, (change c).next = c.next ∧ (change c).nextShmId = c.nextShmId ∧ (change c).shmId = c.shmId) :
    log.SameIds (log.modify cell change) := by
  constructor
  · intro other
    rw [cell_modify]
    split
    · exact (keeps _).1
    · rfl
  · intro other
    rw [cell_modify]
    split
    · exact (keeps _).2.1
    · rfl
  · intro other
    rw [cell_modify]
    split
    · exact (keeps _).2.2
    · rfl
  · rfl
  · rfl

theorem sameIds_append (log : CRingLog) (cell : CellPtr) (logLine : Bytes) :
    log.SameIds (log.modify cell (·.append logLine)) := by
  apply log.sameIds_modify
  intro c
  unfold CBufferCell.append
  split <;> exact ⟨rfl, rfl, rfl⟩

/-- The ring is the same, and so is the order of its cells. -/
theorem Named.of_same (named : log.Named cells) (same : log.SameIds log')
    (ring : Circular (fun cell => (log.cell cell).next) log.prstBuf cells)
    (ring' : Circular (fun cell => (log'.cell cell).next) log'.prstBuf cells') : log'.Carries cells cells' := by
  have before : Circular (fun cell => (log'.cell cell).next) log'.prstBuf cells := by
    rw [same.prstBuf]
    exact ring.congr fun cell _ => same.next cell
  cases ring'.unique before
  refine ⟨⟨?_, ?_⟩, fun cell member => member⟩
  · intro cell member
    rw [same.shmId]
    exact named.own cell member
  · rw [same.prstBCShmId]
    apply named.ring.congr
    intro shmId _
    exact congrArg some (same.nextShmId ⟨shmId, 0⟩)

theorem Named.index (named : log.Named (cell :: cells)) : log.prstBCShmId = cell.shmId :=
  (Option.some.inj named.ring.head).symm

theorem grow_grownIds (log : CRingLog) (nextBuf : CellPtr) :
    ∃ log', log.grow nextBuf .succeeds = .ok log' ∧ log.GrownIds nextBuf log' := by
  obtain ⟨shm, newBuffer, done, created⟩ := log.shm.createCellBuffer_succeeds (SHMKEY + log.buffCnt) log.oneBuffLen
  have result : log.grow nextBuf .succeeds = .ok { log with
      shm := (shm.link log.curBuf newBuffer).link newBuffer nextBuf
      buffCnt := log.buffCnt + 1
      curBuf := newBuffer } := by
    simp only [grow, done, bind, Except.bind]
  have old (other : CellPtr) (differ : other.shmId ≠ newBuffer.shmId) : shm.deref other = log.shm.deref other :=
    created.frame other differ
  have new : shm.deref newBuffer = .create newBuffer.shmId log.oneBuffLen := created.deref
  refine ⟨_, result, ?_⟩
  constructor
  · intro apart other
    simp only [cell, Shm.deref_link, old nextBuf apart, new, CBufferCell.create]
    split
    · rfl
    · rename_i differ
      rw [old other differ]
  · intro other differ
    simp only [cell, Shm.deref_link, old other differ]
  · simp only [cell, Shm.deref_link, new, CBufferCell.create]
  · rfl

/-- The new cell is behind `m_pCurBuf` for the ids as well. -/
theorem GrownIds.named (grown : log.GrownIds log.prstBuf log')
    (fresh : ∀ cell ∈ full ++ [log.curBuf], cell.shmId ≠ log'.curBuf.shmId)
    (links : log.Links (full ++ [log.curBuf])) (named : log.Named (full ++ [log.curBuf])) :
    log'.Named (full ++ [log.curBuf] ++ [log'.curBuf]) := by
  obtain ⟨cells, start⟩ := links.ring.eq_cons
  have first : log.prstBuf ∈ full ++ [log.curBuf] := by
    rw [start]
    simp
  have nextShmId := grown.nextShmId (fresh _ first)
  have index : log.prstBCShmId = log.prstBuf.shmId := by
    rw [start] at named
    exact named.index
  constructor
  · intro cell member
    rcases List.mem_append.mp member with old | new
    · rw [grown.others cell (fresh cell old)]
      exact named.own cell old
    · rw [List.mem_singleton.mp new]
      exact grown.new
  · have ids : (full ++ [log.curBuf] ++ [log'.curBuf]).map CellPtr.shmId =
        full.map CellPtr.shmId ++ log.curBuf.shmId :: log'.curBuf.shmId :: [] := by simp
    have ring := named.ring
    rw [List.map_append, List.map_singleton] at ring
    rw [ids, grown.prstBCShmId]
    refine ring.insert ?_ ?_ ?_ ?_
    · intro member
      rw [← List.map_singleton, ← List.map_append] at member
      obtain ⟨cell, old, same⟩ := List.mem_map.mp member
      exact fresh cell old same
    · intro shmId member
      rw [List.append_nil] at member
      obtain ⟨cell, old, rfl⟩ := List.mem_map.mp member
      have own : cell.shmId ≠ log.curBuf.shmId := links.differ (by simpa using old)
      have formula := nextShmId cell
      rw [if_neg (fresh cell (List.mem_append_left _ old)), if_neg own] at formula
      exact congrArg some formula
    · have formula := nextShmId log.curBuf
      rw [if_neg (fresh log.curBuf (by simp)), if_pos rfl] at formula
      exact congrArg some formula
    · have formula := nextShmId log'.curBuf
      rw [if_pos rfl, named.own _ first, ← index] at formula
      have last : log.shm.nextId log.curBuf.shmId = ([] ++ [log.prstBCShmId]).head? := ring.next_eq
      rw [last]
      exact congrArg some formula

theorem moveOn_ids (done : log.moveOn curSec .succeeds = .ok log') :
    log.SameIds log' ∨ ∃ nextBuf, (log.cell log.curBuf).next = some nextBuf ∧ (log.cell nextBuf).status = .full ∧
      log.grow nextBuf .succeeds = .ok log' := by
  unfold moveOn at done
  split at done
  · cases done
  · rename_i nextBuf next
    split at done
    · rename_i isFull
      split at done
      · cases done
        exact .inl ⟨fun _ => rfl, fun _ => rfl, fun _ => rfl, rfl, rfl⟩
      · exact .inr ⟨nextBuf, next, isFull, done⟩
    · cases done
      exact .inl ⟨fun _ => rfl, fun _ => rfl, fun _ => rfl, rfl, rfl⟩

/-- With a full cell behind `m_pCurBuf` no cell is left free. -/
theorem Filled.rest_nil (filled : log.Filled full rest) (next : (log.cell log.curBuf).next = some nextBuf)
    (isFull : (log.cell nextBuf).status = .full) : rest = [] := by
  cases rest with
  | nil => rfl
  | cons first rest =>
    have found : (log.cell log.curBuf).next = some first := filled.links.next_eq
    cases found.symm.trans next
    rw [filled.marks.isFree nextBuf (by simp)] at isFull
    cases isFull

theorem Filled.named_grow (filled : log.Filled full []) (named : log.Named (full ++ [log.curBuf]))
    (done : log.grow log.prstBuf .succeeds = .ok log') : log'.Named (full ++ [log.curBuf] ++ [log'.curBuf]) := by
  obtain ⟨grown, made, grows⟩ := log.grow_grown log.prstBuf
  obtain ⟨grown', made', ids⟩ := log.grow_grownIds log.prstBuf
  cases made.symm.trans done
  cases made'.symm.trans done
  exact ids.named (fun cell member => grows.fresh filled.links member) filled.links named

theorem Filled.carries (filled : log.Filled full rest) (named : log.Named (full ++ log.curBuf :: rest))
    (done : log.moveOn curSec .succeeds = .ok log') (shape : log'.Shape full' free') :
    log'.Carries (full ++ log.curBuf :: rest) (full' ++ free') := by
  rcases moveOn_ids done with same | ⟨nextBuf, next, isFull, made⟩
  · exact named.of_same same filled.links.ring shape.links.ring
  · cases filled.rest_nil next isFull
    cases filled.next_full.1.symm.trans next
    obtain ⟨grown, made', grows⟩ := log.grow_grown log.prstBuf
    cases made'.symm.trans made
    have ring := (grows.links filled.links).ring
    rw [shape.links.ring.unique ring]
    exact ⟨filled.named_grow named made, fun cell member => List.mem_append_left _ member⟩

theorem Carries.trans {log'' : CRingLog} (first : log'.Carries cells cells') (second : log''.Carries cells' cells'') :
    log''.Carries cells cells'' :=
  ⟨second.named, fun cell member => second.stay cell (first.stay cell member)⟩

theorem Shape.carries_appendLocked (shape : log.Shape full free) (named : log.Named (full ++ free))
    (fits : logLine.length ≤ log.oneBuffLen) (done : log.appendLocked curSec logLine .succeeds = .ok (log', accepted))
    (shape' : log'.Shape full' free') : log'.Carries (full ++ free) (full' ++ free') := by
  rw [appendLocked_eq] at done
  rcases shape.seekCell fits curSec with
    ⟨_, _, _, seeks⟩ | ⟨_, seeks⟩ | ⟨rest, log₁, free₁, rfl, narrow, moves, seeks, moved⟩
  · rw [seeks] at done
    cases done
    exact named.of_same (sameIds_append ..) shape.links.ring shape'.links.ring
  · rw [seeks] at done
    cases done
    exact named.of_same ⟨fun _ => rfl, fun _ => rfl, fun _ => rfl, rfl, rfl⟩ shape.links.ring shape'.links.ring
  · have filled := shape.filled (shape.nonempty_of_narrow narrow fits)
    have marked := log.sameIds_modify log.curBuf setFull fun _ => ⟨rfl, rfl, rfl⟩
    have filling := named.of_same marked shape.links.ring filled.links.ring
    have moving := filling.trans (filled.carries filling.named moves moved.shape)
    rw [seeks] at done
    cases done
    split at shape'
    · rename_i calls
      rw [if_pos calls]
      exact moving.trans (moving.named.of_same (sameIds_append ..) moved.shape.links.ring shape'.links.ring)
    · rename_i calls
      rw [if_neg calls]
      rwa [shape'.links.ring.unique moved.shape.links.ring]

theorem Shape.carries_checkLocked (shape : log.Shape full free) (named : log.Named (full ++ free))
    (done : log.checkLocked = .ok (log', go)) (shape' : log'.Shape full' free') :
    log'.Carries (full ++ free) (full' ++ free') := by
  have same : log.SameIds log' := by
    unfold CRingLog.checkLocked at done
    split at done
    · cases done
      exact .refl log
    · split at done
      · split at done
        · cases done
        · dsimp only at done
          split at done
          · cases done
          · cases done
            have marked := log.sameIds_modify log.curBuf setFull fun _ => ⟨rfl, rfl, rfl⟩
            exact marked.trans ⟨fun _ => rfl, fun _ => rfl, fun _ => rfl, rfl, rfl⟩
      · cases done
        exact .refl log
  exact named.of_same same shape.links.ring shape'.links.ring

theorem clearLocked_of_next (next : (log.cell log.prstBuf).next = some second) :
    log.clearLocked = .ok { log.modify log.prstBuf CBufferCell.clearBuffer with
      prstBuf := second
      prstBCShmId := ((log.modify log.prstBuf CBufferCell.clearBuffer).cell second).shmId } := by
  have found : ((log.modify log.prstBuf CBufferCell.clearBuffer).cell log.prstBuf).next = some second := by
    rw [cell_modify_self]
    exact next
  unfold clearLocked
  dsimp only
  have same : (log.modify log.prstBuf CBufferCell.clearBuffer).prstBuf = log.prstBuf := rfl
  rw [same, found]

theorem Shape.carries_clearLocked (shape : log.Shape (first :: full) free) (named : log.Named (first :: full ++ free))
    (done : log.clearLocked = .ok log') (shape' : log'.Shape full' free') :
    log'.Carries (first :: full ++ free) (full' ++ free') := by
  have start : first = log.prstBuf := Option.some.inj shape.links.ring.head
  subst start
  obtain ⟨second, rest, split_⟩ : ∃ second rest, full ++ free = second :: rest := by
    have two := shape.links.two
    rw [List.cons_append] at two
    cases whole : full ++ free with
    | nil => simp [whole] at two
    | cons second rest => exact ⟨second, rest, rfl⟩
  have next : (log.cell log.prstBuf).next = some second := by
    have links : log.Links ([] ++ log.prstBuf :: (full ++ free)) := shape.links
    rw [links.next_eq, split_]
    rfl
  have cells : full' ++ free' = second :: rest ++ [log.prstBuf] := by
    obtain ⟨_, made, turned, _⟩ := shape.clearLocked
    cases made.symm.trans done
    rw [shape'.links.ring.unique turned.links.ring, ← List.append_assoc, split_]
  have perm := List.perm_append_singleton log.prstBuf (second :: rest)
  rw [List.cons_append, split_] at named ⊢
  rw [cells]
  have marked := log.sameIds_modify log.prstBuf CBufferCell.clearBuffer fun _ => ⟨rfl, rfl, rfl⟩
  have known : second ∈ log.prstBuf :: second :: rest := by simp
  cases (clearLocked_of_next next).symm.trans done
  refine ⟨⟨?_, ?_⟩, fun cell member => perm.mem_iff.mpr member⟩
  · intro cell member
    exact (marked.shmId cell).trans (named.own cell (perm.mem_iff.mp member))
  · have ring := named.ring
    rw [List.map_cons, List.map_cons, named.index] at ring
    rw [List.map_append, List.map_singleton]
    have index := (marked.shmId second).trans (named.own second known)
    dsimp only
    rw [index]
    apply ring.rotate.congr
    intro shmId _
    exact congrArg some (marked.nextShmId ⟨shmId, 0⟩)

end CRingLog

namespace LogState

variable {s s' : LogState} {full free full' free' : List CellPtr}

theorem Keeps.carries (keeps : s.Keeps full free) (named : s.log.Named (full ++ free))
    (taken : s.act step = some (.ok s')) (keeps' : s'.Keeps full' free') :
    s'.log.Carries (full ++ free) (full' ++ free') := by
  have ring := keeps.shape.links.ring
  have ring' := keeps'.shape.links.ring
  cases step with
  | enter producer curSec logLine =>
    simp only [LogState.act] at taken
    split at taken
    · split at taken
      · cases taken
        exact named.of_same (.refl _) ring ring'
      · cases taken
        exact named.of_same (.refl _) ring ring'
    · cases taken
  | unthrottle producer =>
    simp only [LogState.act] at taken
    split at taken
    · cases taken
      exact named.of_same ⟨fun _ => rfl, fun _ => rfl, fun _ => rfl, rfl, rfl⟩ ring ring'
    · cases taken
  | append producer =>
    simp only [LogState.act] at taken
    split at taken
    · rename_i curSec logLine locking
      have fits := keeps.fits producer
      rw [locking] at fits
      obtain ⟨⟨log', accepted⟩, done, rest⟩ := bind_eq_ok.mp (Option.some.inj taken)
      cases rest
      exact keeps.shape.carries_appendLocked named fits done keeps'.shape
    · cases taken
  | check =>
    simp only [LogState.act] at taken
    split at taken
    · obtain ⟨⟨log', go⟩, done, rest⟩ := bind_eq_ok.mp (Option.some.inj taken)
      cases rest
      exact keeps.shape.carries_checkLocked named done keeps'.shape
    · cases taken
  | persist opened =>
    simp only [LogState.act] at taken
    split at taken
    · split at taken
      · cases taken
        exact named.of_same (.refl _) ring ring'
      · cases taken
        exact named.of_same (.refl _) ring ring'
    · cases taken
  | clear =>
    simp only [LogState.act] at taken
    split at taken
    · rename_i clearing
      obtain ⟨first, rest, rfl⟩ := List.exists_cons_of_ne_nil (keeps.busy (by simp [clearing]))
      obtain ⟨log', done, same⟩ := bind_eq_ok.mp (Option.some.inj taken)
      cases same
      exact keeps.shape.carries_clearLocked named done keeps'.shape
    · cases taken

end LogState

namespace CRingLog

variable {log : CRingLog} {shm shm₁ shm₂ shm₃ : Shm} {head second third : CellPtr}

theorem construct_index {first next again : Allocation}
    (done : construct shm len first next again = .ok (some log)) :
    log.prstBCShmId = (log.cell log.prstBuf).shmId := by
  unfold construct at done
  obtain ⟨⟨shm₁, made⟩, _, done⟩ := bind_eq_ok.mp done
  cases made with
  | none => cases done
  | some head =>
    obtain ⟨chained, _, done⟩ := bind_eq_ok.mp done
    cases chained with
    | none => cases done
    | some cells =>
      cases done
      rfl

theorem Constructed.index (constructed : log.Constructed) : log.prstBCShmId = (log.cell log.prstBuf).shmId := by
  obtain ⟨shm, index, rounds, oneBuffLen, done⟩ := constructed
  unfold create at done
  obtain ⟨cleared, _, done⟩ := bind_eq_ok.mp done
  cases cleared with
  | none => cases done
  | some shm => exact construct_index done

theorem Built.ids (built : log.Built shm₁ shm₂ shm₃ shm head second third) :
    ((log.cell head).shmId = head.shmId ∧ (log.cell head).nextShmId = second.shmId) ∧
      (log.cell second).shmId = second.shmId ∧ (log.cell second).nextShmId = head.shmId := by
  have same := built.same_segment
  have differ := built.distinct
  have differ' : head.shmId ≠ third.shmId := by rwa [same]
  have content : shm₃.deref second = shm₃.deref third := by rw [Shm.deref, Shm.deref, same]
  constructor
  · simp only [cell, built.memory, Shm.deref_link, if_neg differ, if_neg differ', built.again.frame head differ',
      built.next.frame head differ, built.first.deref, built.next.deref, CBufferCell.create, if_true, and_self]
  · simp only [cell, built.memory, Shm.deref_link, same, content, built.again.deref, if_neg differ,
      built.again.frame head differ', built.next.frame head differ, built.first.deref, CBufferCell.create, if_true,
      and_self]

theorem Constructed.named (constructed : log.Constructed) :
    ∃ cells, log.Shape [] cells ∧ log.contents cells = [] ∧ log.Named cells := by
  obtain ⟨_, _, _, _, head, second, _, built⟩ := constructed.built
  obtain ⟨⟨headOwn, headNext⟩, secondOwn, secondNext⟩ := built.ids
  refine ⟨[head, second], built.shape, by simp [built.head_cell, built.second_cell], ?_, ?_, ?_, ?_⟩
  · intro cell member
    rcases List.mem_pair.mp member with rfl | rfl
    · exact headOwn
    · exact secondOwn
  · rw [constructed.index, built.prstBuf, headOwn]
    rfl
  · rw [constructed.index, built.prstBuf, headOwn]
    exact ⟨congrArg some headNext, congrArg some secondNext, trivial⟩
  · simp [built.distinct]

end CRingLog

theorem LogState.reachable_named (reachable : (logSystem CRingLog.Constructed).Reachable allowed s) :
    ∃ full free, s.Keeps full free ∧ s.log.Named (full ++ free) := by
  refine reachable.invariant (fun s => ∃ full free, s.Keeps full free ∧ s.log.Named (full ++ free)) ?_ ?_
  · rintro s ⟨log, constructed, rfl⟩
    obtain ⟨cells, shape, _, named⟩ := constructed.named
    exact ⟨[], cells, keeps_start shape, named⟩
  · rintro s step s' ⟨full, free, keeps, named⟩ _ taken
    obtain ⟨next, full', free', same, follows⟩ := keeps.act taken
    cases same
    exact ⟨full', free', follows.keeps, (keeps.carries named taken follows.keeps).named⟩

end WSlyh.Log
