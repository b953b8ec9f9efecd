import WSlyh.Log.Start

/-! The constructor counts three cells and links two, and the ring stays one cell short. -/

namespace WSlyh.Log

open Libc Lib

/-- A circular doubly linked list of `m_iBuffCnt` cells in different segments, where the ids
name the same neighbours as the pointers. -/
structure CRingLog.Proper (log : CRingLog) (cells : List CellPtr) : Prop where
  ring : Circular (fun cell => (log.cell cell).next) log.prstBuf cells
  count : cells.length = log.buffCnt
  segments : (cells.map CellPtr.shmId).Nodup
  pre : ∀ cell ∈ cells, ∀ next, (log.cell cell).next = some next → (log.cell next).pre = some cell
  nextShmId : ∀ cell ∈ cells, ∀ next, (log.cell cell).next = some next →
    (log.cell cell).nextShmId = (log.cell next).shmId
  preShmId : ∀ cell ∈ cells, ∀ pre, (log.cell cell).pre = some pre → (log.cell cell).preShmId = (log.cell pre).shmId

theorem CRingLog.Shape.not_proper {log : CRingLog} (shape : log.Shape full free)
    (short : (full ++ free).length + 1 = log.buffCnt) : ¬ ∃ cells, log.Proper cells := by
  rintro ⟨cells, proper⟩
  have count := proper.count
  rw [proper.ring.unique shape.links.ring] at count
  omega

/-- A growth adds a cell to the ring and one to the count, and nothing else changes either. -/
theorem reachable_short (reachable : (logSystem CRingLog.Constructed).Reachable allowed s) :
    ∃ full free, s.Keeps full free ∧ (full ++ free).length + 1 = s.log.buffCnt := by
  refine reachable.invariant
    (fun s => ∃ full free, s.Keeps full free ∧ (full ++ free).length + 1 = s.log.buffCnt) ?_ ?_
  · rintro s ⟨log, constructed, rfl⟩
    obtain ⟨_, _, _, _, head, second, _, built⟩ := constructed.built
    exact ⟨[], [head, second], LogState.keeps_start built.shape, built.buffCnt.symm⟩
  · rintro s step s' ⟨full, free, keeps, short⟩ _ taken
    obtain ⟨next, full', free', same, follows⟩ := keeps.act taken
    cases same
    have count := follows.count
    exact ⟨full', free', follows.keeps, by omega⟩

/-- After the constructor, and whatever happens later, the ring never is a proper one. -/
theorem not_proper_of_reachable (reachable : (logSystem CRingLog.Constructed).Reachable (fun _ _ => True) s) :
    ¬ ∃ cells, s.log.Proper cells := by
  obtain ⟨full, free, keeps, short⟩ := reachable_short reachable
  exact keeps.shape.not_proper short

theorem constructed_start_not_proper :
    ∃ log, CRingLog.create .empty none 0 (30 * 1024 * 1024) .succeeds .succeeds .succeeds = .ok (some log) ∧
      ¬ ∃ cells, (LogState.start log).log.Proper cells := by
  obtain ⟨log, done, _⟩ := CRingLog.construct_built .empty (30 * 1024 * 1024)
  exact ⟨log, done, not_proper_of_reachable (.init ⟨log, ⟨.empty, none, 0, 30 * 1024 * 1024, done⟩, rfl⟩)⟩

/-- Where no segment exists before, the walk from `m_pPrstBuf` comes back after two cells. -/
theorem constructed_two_cells :
    ∃ log head second, CRingLog.create .empty none 0 (30 * 1024 * 1024) .succeeds .succeeds .succeeds =
      .ok (some log) ∧
      log.buffCnt = 3 ∧ Circular (fun cell => (log.cell cell).next) log.prstBuf [head, second] ∧
      ¬ ∃ cells, log.Proper cells := by
  obtain ⟨log, done, _, _, _, _, head, second, _, built⟩ := CRingLog.construct_built .empty (30 * 1024 * 1024)
  exact ⟨log, head, second, done, built.buffCnt, built.shape.links.ring,
    built.shape.not_proper built.buffCnt.symm⟩

end WSlyh.Log
