import WSlyh.Log.Interleaving

/-! The ring as the constructor builds it: of its three cells the last two share a segment. -/

namespace WSlyh.Log

open Libc Lib

/-- The log that a constructor run leaves whose allocations all succeed. -/
def CRingLog.Constructed (log : CRingLog) : Prop :=
  ∃ shm index rounds oneBuffLen,
    CRingLog.create shm index rounds oneBuffLen .succeeds .succeeds .succeeds = .ok (some log)

/-- The three cells of the constructor, one after the other. -/
structure CRingLog.Built (log : CRingLog) (shm₁ shm₂ shm₃ : Shm) (shm : Shm) (head second third : CellPtr) : Prop where
  first : shm.Created SHMKEY log.oneBuffLen shm₁ head
  next : shm₁.Created (SHMKEY + 1) log.oneBuffLen shm₂ second
  again : (shm₂.link head second).Created (SHMKEY + 1) log.oneBuffLen shm₃ third
  memory : log.shm = (shm₃.link second third).link third head
  curBuf : log.curBuf = head
  prstBuf : log.prstBuf = head
  buffCnt : log.buffCnt = 3
  lastLogFailTime : log.lastLogFailTime = 0

namespace CRingLog

variable {log : CRingLog} {shm shm₁ shm₂ shm₃ : Shm} {head second third : CellPtr}

theorem construct_built (shm : Shm) (oneBuffLen : Nat) :
    ∃ log, construct shm oneBuffLen .succeeds .succeeds .succeeds = .ok (some log) ∧ log.oneBuffLen = oneBuffLen ∧
      ∃ shm₁ shm₂ shm₃ head second third, log.Built shm₁ shm₂ shm₃ shm head second third := by
  obtain ⟨shm₁, head, first, createdHead⟩ := shm.createCellBuffer_succeeds SHMKEY oneBuffLen
  obtain ⟨shm₂, second, next, createdSecond⟩ := shm₁.createCellBuffer_succeeds (SHMKEY + 1) oneBuffLen
  obtain ⟨shm₃, third, again, createdThird⟩ :=
    (shm₂.link head second).createCellBuffer_succeeds (SHMKEY + 1) oneBuffLen
  have done : construct shm oneBuffLen .succeeds .succeeds .succeeds = .ok (some {
      shm := (shm₃.link second third).link third head
      buffCnt := 3
      curBuf := head
      prstBuf := head
      lastLogFailTime := 0
      oneBuffLen
      prstBCShmId := (((shm₃.link second third).link third head).deref head).shmId }) := by
    simp only [construct, Shm.chainCells, first, next, again, bind, Except.bind]
  exact ⟨_, done, rfl, shm₁, shm₂, shm₃, head, second, third, createdHead, createdSecond, createdThird, rfl, rfl,
    rfl, rfl, rfl⟩

/-- The key of the second cell is used again. -/
theorem Built.same_segment (built : log.Built shm₁ shm₂ shm₃ shm head second third) :
    third.shmId = second.shmId := by
  have kept := built.again.known _ _ built.next.lookup
  rw [built.again.lookup] at kept
  exact Option.some.inj kept

theorem Built.distinct (built : log.Built shm₁ shm₂ shm₃ shm head second third) : head.shmId ≠ second.shmId := by
  intro same
  have kept := built.next.known _ _ built.first.lookup
  rw [same] at kept
  have keys := Shm.lookup_injective kept built.next.lookup
  simp [SHMKEY] at keys

theorem Built.head_cell (built : log.Built shm₁ shm₂ shm₃ shm head second third) :
    (log.cell head).next = some second ∧ (log.cell head).status = .free ∧ (log.cell head).aData = [] ∧
      (log.cell head).tolLength = log.oneBuffLen := by
  have differ := built.distinct
  have differ' : head.shmId ≠ third.shmId := by rwa [built.same_segment]
  simp only [cell, built.memory, Shm.deref_link, if_neg differ, if_neg differ', built.again.frame head differ',
    built.next.frame head differ, built.first.deref, CBufferCell.create, if_true, and_self]

theorem Built.second_cell (built : log.Built shm₁ shm₂ shm₃ shm head second third) :
    (log.cell second).next = some head ∧ (log.cell second).status = .free ∧ (log.cell second).aData = [] ∧
      (log.cell second).tolLength = log.oneBuffLen := by
  have same := built.same_segment
  have content : shm₃.deref second = shm₃.deref third := by rw [Shm.deref, Shm.deref, same]
  simp only [cell, built.memory, Shm.deref_link, same, content, built.again.deref, CBufferCell.create, if_true,
    and_self]

theorem Built.shape (built : log.Built shm₁ shm₂ shm₃ shm head second third) : log.Shape [] [head, second] := by
  obtain ⟨headNext, headFree, headEmpty, headSize⟩ := built.head_cell
  obtain ⟨secondNext, secondFree, secondEmpty, secondSize⟩ := built.second_cell
  have kept (key shmId : Int) (found : shm₂.lookup key = some shmId) : log.shm.lookup key = some shmId := by
    rw [built.memory]
    exact built.again.known key shmId found
  refine ⟨⟨⟨?_, ?_, ?_⟩, ?_, ?_, ?_, ?_⟩, ⟨by simp, ?_, ?_⟩, ?_⟩
  · simp [built.prstBuf]
  · rw [built.prstBuf]
    exact ⟨headNext, secondNext, trivial⟩
  · have differ : head ≠ second := fun same => built.distinct (congrArg _ same)
    simp [differ]
  · simp [built.distinct]
  · simp
  · intro cell member
    rcases List.mem_pair.mp member with rfl | rfl
    · refine ⟨0, by rw [built.buffCnt]; omega, kept _ _ ?_⟩
      have found := built.next.known _ _ built.first.lookup
      simpa using found
    · exact ⟨1, by rw [built.buffCnt]; omega, kept _ _ (by simpa using built.next.lookup)⟩
  · intro cell member
    rcases List.mem_pair.mp member with rfl | rfl
    · exact headSize
    · exact secondSize
  · intro cell member
    rcases List.mem_pair.mp member with rfl | rfl
    · exact headFree
    · exact secondFree
  · simpa using secondEmpty
  · simp [built.curBuf]

theorem Constructed.built (constructed : log.Constructed) :
    ∃ shm shm₁ shm₂ shm₃ head second third, log.Built shm₁ shm₂ shm₃ shm head second third := by
  obtain ⟨shm, index, rounds, oneBuffLen, done⟩ := constructed
  unfold create at done
  cases cleared : shm.getPrstCBShmId index rounds with
  | error fault => simp [cleared, bind, Except.bind] at done
  | ok left =>
    cases left with
    | none => simp [cleared, bind, Except.bind] at done
    | some shm =>
      obtain ⟨log', done', _, built⟩ := construct_built shm oneBuffLen
      simp only [cleared, bind, Except.bind, done'] at done
      cases done
      exact ⟨shm, built⟩

/-- Its ring is one of two cells in which nothing is written. -/
theorem Constructed.started (constructed : log.Constructed) : log.Started := by
  obtain ⟨_, _, _, _, head, second, _, built⟩ := constructed.built
  exact ⟨[head, second], built.shape, by simp [built.head_cell, built.second_cell]⟩

end CRingLog

end WSlyh.Log
