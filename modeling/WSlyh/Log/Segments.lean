import WSlyh.Lib.Transition
import WSlyh.Log.RingLog

/-! Which segments a log leads to, and what its sections do to the segments of the system. -/

namespace WSlyh.Log

open Libc Lib

namespace Shm

variable {shm shm' shm'' : Shm} {ids ids' : List Int} {shmId : Int} {bc front back : CellPtr}

/-- A segment that some key leads to. -/
def Live (shm : Shm) (shmId : Int) : Prop := ∃ key, (key, shmId) ∈ shm.segments

/-- A segment that no key leads to any more. -/
structure Gone (shm : Shm) (shmId : Int) : Prop where
  early : shmId < shm.nextShmId
  dead : ¬ shm.Live shmId

/-- No segment has come back. -/
structure Later (shm shm' : Shm) : Prop where
  counts : shm.nextShmId ≤ shm'.nextShmId
  live : ∀ shmId, shm'.Live shmId → shm.Live shmId ∨ shm.nextShmId ≤ shmId

/-- No segment has come back, and none is gone. -/
structure Grown (shm shm' : Shm) : Prop extends Later shm shm' where
  known : ∀ key shmId, shm.lookup key = some shmId → shm'.lookup key = some shmId

theorem Later.refl (shm : Shm) : shm.Later shm := ⟨le_rfl, fun _ live => .inl live⟩

theorem Grown.refl (shm : Shm) : shm.Grown shm := ⟨.refl shm, fun _ _ known => known⟩

theorem Grown.trans (first : shm.Grown shm') (second : shm'.Grown shm'') : shm.Grown shm'' := by
  refine ⟨⟨first.counts.trans second.counts, ?_⟩, ?_⟩
  · intro shmId live
    rcases second.live shmId live with before | fresh
    · exact first.live shmId before
    · exact .inr (first.counts.trans fresh)
  · intro key shmId known
    exact second.known key shmId (first.known key shmId known)

theorem grown_modify (shm : Shm) (cell : CellPtr) (change : CBufferCell → CBufferCell) :
    shm.Grown (shm.modify cell change) :=
  ⟨⟨le_rfl, fun _ live => .inl live⟩, fun _ _ known => known⟩

theorem grown_link (shm : Shm) (front back : CellPtr) : shm.Grown (shm.link front back) :=
  ⟨⟨le_rfl, fun _ live => .inl live⟩, fun _ _ known => known⟩

theorem later_remove (shm : Shm) (shmId : Int) : shm.Later (shm.remove shmId) := by
  refine ⟨le_rfl, ?_⟩
  rintro other ⟨key, member⟩
  exact .inl ⟨key, List.mem_of_mem_filter member⟩

theorem Gone.later (gone : shm.Gone shmId) (later : shm.Later shm') : shm'.Gone shmId := by
  refine ⟨gone.early.trans_le later.counts, fun live => ?_⟩
  rcases later.live shmId live with before | fresh
  · exact gone.dead before
  · exact absurd gone.early (not_lt.mpr fresh)

theorem gone_remove (early : shmId < shm.nextShmId) : (shm.remove shmId).Gone shmId := by
  refine ⟨early, ?_⟩
  rintro ⟨key, member⟩
  have kept := List.of_mem_filter member
  simp at kept

theorem lookup_remove (found : shm.lookup key = some shmId) (differ : shmId ≠ other) :
    (shm.remove other).lookup key = some shmId := by
  obtain ⟨before, behind, split, absent⟩ := List.lookup_eq_some_iff.mp found
  have kept : ((key, shmId).2 != other) = true := bne_iff_ne.mpr differ
  have segments : (shm.remove other).segments = shm.segments.filter (·.2 != other) := rfl
  apply List.lookup_eq_some_iff.mpr
  refine ⟨before.filter (·.2 != other), behind.filter (·.2 != other), ?_, ?_⟩
  · rw [segments, split, List.filter_append, List.filter_cons, if_pos kept]
  · intro entry member
    exact absent entry (List.mem_of_mem_filter member)

theorem grown_shmget (shm : Shm) (key : Int) : shm.Grown (shm.shmget key).1 := by
  refine ⟨?_, (shm.shmget_spec key).2.1⟩
  unfold shmget
  cases found : shm.lookup key with
  | some shmId => exact Later.refl shm
  | none =>
    refine ⟨?_, ?_⟩
    · simp
    · rintro shmId ⟨other, member⟩
      rcases List.mem_append.mp member with old | new
      · exact .inl ⟨other, old⟩
      · have same := (Prod.mk.inj (List.mem_singleton.mp new)).2
        exact .inr same.ge

/-- A cell that is created lies in a segment that a key leads to. -/
theorem of_createCellBuffer (done : shm.createCellBuffer shmKey dataLen allocation = .ok (shm', some bc)) :
    shm.Created shmKey dataLen shm' bc ∧ shm.Grown shm' ∧ shm'.Live bc.shmId := by
  cases allocation with
  | shmgetFails => cases done
  | shmatFails => cases done
  | succeeds =>
    obtain ⟨other, bc', created, spec⟩ := shm.createCellBuffer_succeeds shmKey dataLen
    have same := Except.ok.inj (done.symm.trans created)
    obtain ⟨rfl, isBc⟩ := Prod.mk.inj same
    obtain rfl := Option.some.inj isBc
    refine ⟨spec, ?_, shmKey, mem_of_lookup spec.lookup⟩
    have grown := shm.grown_shmget shmKey
    simp only [createCellBuffer, Except.ok.injEq, Prod.mk.injEq] at done
    rw [← done.1]
    exact ⟨⟨grown.counts, grown.live⟩, grown.known⟩

/-- From these cells the pointers lead to these cells. -/
def Closed (shm : Shm) (ids : List Int) : Prop :=
  ∀ shmId ∈ ids, ∀ next, (shm.cell shmId).next = some next → next.shmId ∈ ids

theorem Closed.congr (closed : shm.Closed ids) (same : ∀ shmId, shmId ∈ ids ↔ shmId ∈ ids') : shm.Closed ids' := by
  intro shmId member next leads
  exact (same _).mp (closed shmId ((same _).mpr member) next leads)

theorem Closed.created (closed : shm.Closed ids) (created : shm.Created shmKey dataLen shm' bc) :
    shm'.Closed (ids ++ [bc.shmId]) := by
  intro shmId member next leads
  by_cases same : shmId = bc.shmId
  · have new : shm'.cell shmId = .create bc.shmId dataLen := by
      rw [same]
      exact created.deref
    rw [new] at leads
    cases leads
  · have old : shm'.cell shmId = shm.cell shmId := created.frame ⟨shmId, 0⟩ same
    rw [old] at leads
    have inside : shmId ∈ ids := by
      simpa [same] using member
    exact List.mem_append_left _ (closed shmId inside next leads)

theorem Closed.link (closed : shm.Closed ids) (front : CellPtr) (inside : back.shmId ∈ ids) :
    (shm.link front back).Closed ids := by
  intro shmId member next leads
  have content := shm.deref_link front back ⟨shmId, 0⟩
  have leads : ((shm.link front back).deref ⟨shmId, 0⟩).next = some next := leads
  rw [content] at leads
  dsimp only at leads
  split at leads
  · cases leads
    exact inside
  · exact closed shmId member next leads

theorem Closed.modify {change : CBufferCell → CBufferCell} (closed : shm.Closed ids) (cell : CellPtr)
    (keeps : ∀ c, (change c).next = c.next) : (shm.modify cell change).Closed ids := by
  intro shmId member next leads
  have content := shm.deref_modify cell ⟨shmId, 0⟩ change
  have leads : ((shm.modify cell change).deref ⟨shmId, 0⟩).next = some next := leads
  rw [content] at leads
  split at leads
  · rw [keeps] at leads
    exact closed shmId member next leads
  · exact closed shmId member next leads

end Shm

namespace CRingLog

variable {log log' : CRingLog} {ids : List Int} {curSec : Nat} {logLine : Bytes} {allocation : Allocation}
  {nextBuf : CellPtr}

/-- The segments that the pointers of a log lead to. -/
def reaches (log : CRingLog) : List Int :=
  ([some log.curBuf, some log.prstBuf, (log.cell log.curBuf).next, (log.cell log.prstBuf).next].filterMap id).map
    CellPtr.shmId

/-- The pointers of the log lead to these cells, and so do those in the cells. -/
structure Within (log : CRingLog) (ids : List Int) : Prop where
  curBuf : log.curBuf.shmId ∈ ids
  prstBuf : log.prstBuf.shmId ∈ ids
  closed : log.shm.Closed ids

/-- A section loses no segment, and if the log leads to one more cell then it has come to it, and some key
leads there. -/
structure Spread (log : CRingLog) (ids : List Int) (log' : CRingLog) : Prop where
  grown : log.shm.Grown log'.shm
  within : log'.Within (ids ++ [log'.curBuf.shmId])
  origin : log'.curBuf.shmId ∈ ids ∨ log'.shm.Live log'.curBuf.shmId

theorem mem_reaches : shmId ∈ log.reaches ↔ shmId = log.curBuf.shmId ∨ shmId = log.prstBuf.shmId ∨
    (∃ next, (log.cell log.curBuf).next = some next ∧ shmId = next.shmId) ∨
    ∃ next, (log.cell log.prstBuf).next = some next ∧ shmId = next.shmId := by
  simp only [reaches, List.mem_map, List.mem_filterMap]
  aesop

theorem Within.reaches (within : log.Within ids) : ∀ shmId ∈ log.reaches, shmId ∈ ids := by
  intro shmId member
  rcases mem_reaches.mp member with rfl | rfl | ⟨next, leads, rfl⟩ | ⟨next, leads, rfl⟩
  · exact within.curBuf
  · exact within.prstBuf
  · exact within.closed _ within.curBuf next leads
  · exact within.closed _ within.prstBuf next leads

theorem Within.modify {change : CBufferCell → CBufferCell} (within : log.Within ids) (cell : CellPtr)
    (keeps : ∀ c, (change c).next = c.next) : (log.modify cell change).Within ids :=
  ⟨within.curBuf, within.prstBuf, within.closed.modify cell keeps⟩

theorem Within.spread (within : log'.Within ids) (grown : log.shm.Grown log'.shm) : log.Spread ids log' := by
  have same : ∀ shmId, shmId ∈ ids ↔ shmId ∈ ids ++ [log'.curBuf.shmId] := by
    intro shmId
    have known := within.curBuf
    rw [List.mem_append, List.mem_singleton]
    refine ⟨.inl, ?_⟩
    rintro (old | rfl)
    · exact old
    · exact known
  exact ⟨grown, ⟨(same _).mp within.curBuf, (same _).mp within.prstBuf, within.closed.congr same⟩, .inl within.curBuf⟩

theorem Spread.modify {change : CBufferCell → CBufferCell} (spread : log.Spread ids log') (cell : CellPtr)
    (keeps : ∀ c, (change c).next = c.next) : log.Spread ids (log'.modify cell change) :=
  ⟨spread.grown.trans (log'.shm.grown_modify ..), spread.within.modify cell keeps, spread.origin⟩

theorem Spread.of_modify {cell : CellPtr} {change : CBufferCell → CBufferCell}
    (spread : (log.modify cell change).Spread ids log') : log.Spread ids log' :=
  ⟨(log.shm.grown_modify ..).trans spread.grown, spread.within, spread.origin⟩

theorem Within.grow (within : log.Within ids) (inside : nextBuf.shmId ∈ ids)
    (done : log.grow nextBuf allocation = .ok log') : log.Spread ids log' := by
  obtain ⟨⟨shm, newBuffer⟩, created, done⟩ := bind_eq_ok.mp done
  cases newBuffer with
  | none => cases done
  | some newBuffer =>
    cases done
    obtain ⟨spec, grown, live⟩ := Shm.of_createCellBuffer created
    have last : newBuffer.shmId ∈ ids ++ [newBuffer.shmId] := List.mem_append_right _ (List.mem_singleton_self _)
    have closed := ((within.closed.created spec).link log.curBuf last).link newBuffer
      (List.mem_append_left [newBuffer.shmId] inside)
    exact ⟨grown.trans ((shm.grown_link ..).trans (Shm.grown_link ..)),
      ⟨last, List.mem_append_left _ within.prstBuf, closed⟩, .inr live⟩

theorem Within.moveOn (within : log.Within ids) (done : log.moveOn curSec allocation = .ok log') :
    log.Spread ids log' := by
  unfold CRingLog.moveOn at done
  cases next : (log.cell log.curBuf).next with
  | none => simp [next] at done
  | some nextBuf =>
    have inside : nextBuf.shmId ∈ ids := within.closed _ within.curBuf nextBuf next
    have moved : ∀ lastLogFailTime, log.Spread ids { log with curBuf := nextBuf, lastLogFailTime } := by
      intro lastLogFailTime
      exact Within.spread ⟨inside, within.prstBuf, within.closed⟩ (.refl _)
    simp only [next] at done
    split at done
    · split at done
      · cases done
        exact moved curSec
      · exact within.grow inside done
    · cases done
      exact moved log.lastLogFailTime

theorem append_next (cell : CBufferCell) (logLine : Bytes) : (cell.append logLine).next = cell.next := by
  unfold CBufferCell.append
  split <;> rfl

theorem Within.appendLocked {calls : Bool} (within : log.Within ids)
    (done : log.appendLocked curSec logLine allocation = .ok (log', calls)) : log.Spread ids log' := by
  have keeps : ∀ cell : CBufferCell, (cell.append logLine).next = cell.next := fun cell => append_next cell logLine
  unfold CRingLog.appendLocked at done
  split at done
  · cases done
    exact ((within.spread (.refl _)).modify _ keeps)
  · split at done
    · obtain ⟨between, moved, done⟩ := bind_eq_ok.mp done
      have full : (log.modify log.curBuf setFull).Within ids := within.modify log.curBuf fun _ => rfl
      have spread := (full.moveOn moved).of_modify
      split at done
      · cases done
        exact spread.modify _ keeps
      · cases done
        exact spread
    · cases done
      exact Within.spread ⟨within.curBuf, within.prstBuf, within.closed⟩ (.refl _)

theorem Within.checkLocked {goesOn : Bool} (within : log.Within ids) (done : log.checkLocked = .ok (log', goesOn)) :
    log.Spread ids log' := by
  unfold CRingLog.checkLocked at done
  split at done
  · cases done
    exact within.spread (.refl _)
  · split at done
    · split at done
      · cases done
      · have full : (log.modify log.curBuf setFull).Within ids := within.modify log.curBuf fun _ => rfl
        dsimp only at done
        split at done
        · cases done
        · rename_i nextBuf next
          cases done
          have inside : nextBuf.shmId ∈ ids := full.closed _ full.curBuf nextBuf next
          exact Within.spread ⟨inside, full.prstBuf, full.closed⟩ (log.shm.grown_modify ..)
    · cases done
      exact within.spread (.refl _)

theorem Within.clearLocked (within : log.Within ids) (done : log.clearLocked = .ok log') : log.Spread ids log' := by
  have clear : (log.modify log.prstBuf CBufferCell.clearBuffer).Within ids := within.modify log.prstBuf fun _ => rfl
  unfold CRingLog.clearLocked at done
  dsimp only at done
  split at done
  · cases done
  · rename_i nextBuf next
    cases done
    have inside : nextBuf.shmId ∈ ids := clear.closed _ clear.prstBuf nextBuf next
    exact Within.spread ⟨clear.curBuf, inside, clear.closed⟩ (log.shm.grown_modify ..)

end CRingLog

end WSlyh.Log
