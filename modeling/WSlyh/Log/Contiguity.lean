import WSlyh.Log.Filling

/-! The full cells form one stretch of the ring, from `m_pPrstBuf` up to `m_pCurBuf`. -/

namespace WSlyh.Log

open Libc Lib

/-- Of the cells from `m_pPrstBuf` on, either none is full and both pointers are equal, or
exactly those in front of `m_pCurBuf` are full, and all when it is back at the start. -/
def CRingLog.FullFirst (log : CRingLog) (cells : List CellPtr) : Prop :=
  (∀ cell ∈ cells, (log.cell cell).status ≠ .full) ∧ log.curBuf = log.prstBuf ∨
    ∃ full free, cells = full ++ free ∧ full ≠ [] ∧ (∀ cell ∈ cells, (log.cell cell).status = .full ↔ cell ∈ full) ∧
      (free ++ [log.prstBuf]).head? = some log.curBuf

structure CRingLog.Contiguous (log : CRingLog) (cells : List CellPtr) : Prop where
  ring : Circular (fun cell => (log.cell cell).next) log.prstBuf cells
  fullFirst : log.FullFirst cells
  empty : ∀ cell ∈ cells, (log.cell cell).status = .free → cell ≠ log.curBuf → (log.cell cell).aData = []
  nonempty : ∀ cell ∈ cells, (log.cell cell).status = .full → (log.cell cell).aData ≠ []

namespace CRingLog

variable {log : CRingLog} {full free : List CellPtr}

theorem Shape.fullFirst (shape : log.Shape full free) : log.FullFirst (full ++ free) := by
  by_cases none : full = []
  · subst none
    obtain ⟨cells, start⟩ := shape.links.ring.eq_cons
    have cur := shape.cur
    rw [List.nil_append] at start
    rw [start] at cur
    refine .inl ⟨fun cell member => ?_, (Option.some.inj cur).symm⟩
    rw [shape.marks.isFree cell member]
    exact nofun
  · refine .inr ⟨full, free, rfl, none, fun cell member => ⟨fun status => ?_, fun inFull => ?_⟩, shape.cur⟩
    · rcases List.mem_append.mp member with inFull | inFree
      · exact inFull
      · rw [shape.marks.isFree cell inFree] at status
        cases status
    · exact (shape.marks.isFull cell inFull).1

theorem Shape.contiguous (shape : log.Shape full free) : log.Contiguous (full ++ free) := by
  refine ⟨shape.links.ring, shape.fullFirst, fun cell member status differ => ?_, fun cell member status => ?_⟩
  · rcases List.mem_append.mp member with inFull | inFree
    · rw [(shape.marks.isFull cell inFull).1] at status
      cases status
    · cases free with
      | nil => cases inFree
      | cons first rest =>
        have cur : first = log.curBuf := Option.some.inj shape.cur
        rcases List.mem_cons.mp inFree with rfl | behind
        · exact absurd cur differ
        · exact shape.marks.empty cell behind
  · rcases List.mem_append.mp member with inFull | inFree
    · exact (shape.marks.isFull cell inFull).2
    · rw [shape.marks.isFree cell inFree] at status
      cases status

end CRingLog

/-- In every interleaving the full cells stay one stretch of the ring, and no step raises a
fault; in particular the assertion of `PersistLog` holds. -/
theorem contiguous_of_reachable (reachable : (logSystem CRingLog.Started).Reachable (fun _ _ => True) s) :
    (∃ cells, s.log.Contiguous cells) ∧ ∀ step fault, s.act step ≠ some (.error fault) := by
  obtain ⟨full, free, keeps⟩ := LogState.reachable_keeps reachable
  refine ⟨⟨full ++ free, keeps.shape.contiguous⟩, fun step fault faults => ?_⟩
  obtain ⟨s', _, _, same, _⟩ := keeps.act faults
  cases same

theorem overflowed_contiguous :
    ∃ log s, CRingLog.create .empty none 0 (30 * 1024 * 1024) .succeeds .succeeds .succeeds = .ok (some log) ∧
      (logSystem CRingLog.Started).Run (.start log) overflowSteps s ∧ s.log.buffCnt = 102 ∧
      s.persisted.length = 30 * 1024 * 1024 ∧
      (∃ cells, s.log.Contiguous cells) ∧ ∀ step fault, s.act step ≠ some (.error fault) := by
  obtain ⟨log, done, size, _, _, _, _, _, _, built⟩ := CRingLog.construct_built .empty (30 * 1024 * 1024)
  have started : log.Started := CRingLog.Constructed.started ⟨.empty, none, 0, 30 * 1024 * 1024, done⟩
  obtain ⟨s, run, overflowed⟩ := LogState.overflow_run CRingLog.Started built size
  have initial : (logSystem CRingLog.Started).Reachable (fun _ _ => True) (.start log) := .init ⟨log, started, rfl⟩
  exact ⟨log, s, done, run, overflowed.buffCnt, overflowed.persisted, contiguous_of_reachable (initial.run run)⟩

end WSlyh.Log
