import WSlyh.Lib.Circular
import WSlyh.Log.RingLog

/-! The shape that the ring keeps, and what each locked section does to it. Seen from
`m_pPrstBuf` on, first come the full cells and then the free ones, and `m_pCurBuf` is the
first that is free. -/

namespace WSlyh.Log

open Libc Lib

/-- The pointers lead once round through `cells`, each in a segment of its own that one of
the keys used so far stands for. -/
structure CRingLog.Links (log : CRingLog) (cells : List CellPtr) : Prop where
  ring : Circular (fun cell => (log.cell cell).next) log.prstBuf cells
  segments : (cells.map CellPtr.shmId).Nodup
  two : 2 ≤ cells.length
  keyed : ∀ cell ∈ cells, ∃ j < log.buffCnt, log.shm.lookup (SHMKEY + j) = some cell.shmId
  sized : ∀ cell ∈ cells, (log.cell cell).tolLength = log.oneBuffLen

/-- The states of the cells. Only the first free cell may hold anything. -/
structure CRingLog.Marks (log : CRingLog) (full free : List CellPtr) : Prop where
  isFull : ∀ cell ∈ full, (log.cell cell).status = .full ∧ (log.cell cell).aData ≠ []
  isFree : ∀ cell ∈ free, (log.cell cell).status = .free
  empty : ∀ cell ∈ free.tail, (log.cell cell).aData = []

structure CRingLog.Shape (log : CRingLog) (full free : List CellPtr) : Prop where
  links : log.Links (full ++ free)
  marks : log.Marks full free
  cur : (free ++ [log.prstBuf]).head? = some log.curBuf

/-- The bytes held by the cells, in order. -/
def CRingLog.contents (log : CRingLog) (cells : List CellPtr) : Bytes :=
  (cells.map fun cell => (log.cell cell).aData).flatten

namespace CRingLog

variable {log log' : CRingLog} {cells full free front back : List CellPtr} {cell other : CellPtr}

@[simp] theorem cell_modify_self (log : CRingLog) (cell : CellPtr) (change : CBufferCell → CBufferCell) :
    (log.modify cell change).cell cell = change (log.cell cell) := log.shm.deref_modify_self cell change

theorem cell_modify_other (differ : other.shmId ≠ cell.shmId) (change : CBufferCell → CBufferCell) :
    (log.modify cell change).cell other = log.cell other := Shm.deref_modify_other differ change

theorem cell_modify (log : CRingLog) (cell other : CellPtr) (change : CBufferCell → CBufferCell) :
    (log.modify cell change).cell other =
      if other.shmId = cell.shmId then change (log.cell other) else log.cell other := rfl

@[simp] theorem contents_nil (log : CRingLog) : log.contents [] = [] := rfl

@[simp] theorem contents_cons (log : CRingLog) (cell : CellPtr) (cells : List CellPtr) :
    log.contents (cell :: cells) = (log.cell cell).aData ++ log.contents cells := rfl

@[simp] theorem contents_append (log : CRingLog) (front back : List CellPtr) :
    log.contents (front ++ back) = log.contents front ++ log.contents back := by
  simp [contents]

theorem contents_congr (same : ∀ cell ∈ cells, (log'.cell cell).aData = (log.cell cell).aData) :
    log'.contents cells = log.contents cells := by
  unfold contents
  rw [List.map_congr_left same]

theorem contents_empty (empty : ∀ cell ∈ cells, (log.cell cell).aData = []) : log.contents cells = [] := by
  rw [contents, List.map_congr_left empty]
  simp

theorem aData_of_contents (empty : log.contents cells = []) (member : cell ∈ cells) : (log.cell cell).aData = [] :=
  List.flatten_eq_nil_iff.mp empty _ (List.mem_map_of_mem member)

theorem Links.differ (links : log.Links (front ++ cell :: back)) (member : other ∈ front ++ back) :
    other.shmId ≠ cell.shmId := by
  have nodup := links.segments
  rw [List.map_append, List.map_cons, List.nodup_middle, List.nodup_cons, ← List.map_append] at nodup
  intro same
  exact nodup.1 (same ▸ List.mem_map_of_mem member)

/-- A change that leaves the forward pointers alone leaves the ring alone. -/
theorem Links.modify (links : log.Links cells) (cell : CellPtr) {change : CBufferCell → CBufferCell}
    (keeps : ∀ c, (change c).next = c.next ∧ (change c).tolLength = c.tolLength) :
    (log.modify cell change).Links cells := by
  refine ⟨links.ring.congr fun other _ => ?_, links.segments, links.two, links.keyed, fun other member => ?_⟩
  · rw [cell_modify]
    split
    · exact (keeps _).1
    · rfl
  · rw [cell_modify]
    split
    · exact (keeps _).2.trans (links.sized other member)
    · exact links.sized other member

theorem Links.point (links : log.Links cells) (curBuf : CellPtr) (time : Nat) :
    { log with curBuf := curBuf, lastLogFailTime := time }.Links cells :=
  ⟨links.ring, links.segments, links.two, links.keyed, links.sized⟩

theorem Marks.point (marks : log.Marks full free) (curBuf : CellPtr) (time : Nat) :
    { log with curBuf := curBuf, lastLogFailTime := time }.Marks full free :=
  ⟨marks.isFull, marks.isFree, marks.empty⟩

theorem Links.next_eq (links : log.Links (front ++ cell :: back)) :
    (log.cell cell).next = (back ++ [log.prstBuf]).head? := links.ring.next_eq

theorem Shape.free_eq (shape : log.Shape full free) (isFree : (log.cell log.curBuf).status = .free) :
    ∃ rest, free = log.curBuf :: rest := by
  cases free with
  | cons first rest => exact ⟨rest, by rw [Option.some.inj shape.cur]⟩
  | nil =>
    have prst : log.prstBuf = log.curBuf := Option.some.inj shape.cur
    obtain ⟨rest, same⟩ := shape.links.ring.eq_cons
    rw [List.append_nil] at same
    have marked := (shape.marks.isFull log.curBuf (by rw [same, prst]; simp)).1
    rw [isFree] at marked
    cases marked

end CRingLog

end WSlyh.Log
