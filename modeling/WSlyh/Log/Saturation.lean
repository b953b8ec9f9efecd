import WSlyh.Log.Capacity
import WSlyh.Log.Dropping
import WSlyh.Log.LogLine

/-! How much is in the ring when a record is dropped. A full cell lacks less than a record, except for the one
that the consumer works on, and it is only at the memory limit that all cells are full. -/

namespace WSlyh.Log

open Libc Lib

/-- No record is longer than this. -/
def LogStep.Within (len : Nat) : LogStep → Prop
  | .enter _ _ logLine => logLine.length ≤ len
  | _ => True

/-- A record longer than `len` is needed to find one of the full cells too small; the first may have been taken
by the consumer before it was full. -/
structure CRingLog.Sated (log : CRingLog) (len : Nat) (full free : List CellPtr) : Prop where
  tight : ∀ cell ∈ full.tail, log.oneBuffLen < (log.cell cell).aData.length + len
  limit : free = [] → log.overLimit = true

namespace CRingLog

variable {log log' : CRingLog} {full free full' free' rest cells : List CellPtr} {cell : CellPtr} {curSec len : Nat}
  {logLine : Bytes}

/-- The full cells are those that are marked full. -/
theorem Marks.filter_full (marks : log.Marks full free) :
    (full ++ free).filter (fun cell => (log.cell cell).status = .full) = full := by
  rw [List.filter_append, List.filter_eq_self.mpr, List.filter_eq_nil_iff.mpr, List.append_nil]
  · intro cell member
    rw [marks.isFree cell member]
    simp
  · intro cell member
    rw [(marks.isFull cell member).1]
    simp

/-- A ring has one such shape. -/
theorem Shape.unique (shape : log.Shape full free) (shape' : log.Shape full' free') : full' = full ∧ free' = free := by
  have same := shape'.links.ring.unique shape.links.ring
  have fulls : full' = full := by rw [← shape'.marks.filter_full, ← shape.marks.filter_full, same]
  exact ⟨fulls, List.append_cancel_left (fulls ▸ same)⟩

theorem Sated.same (sated : log.Sated len full free)
    (cells : ∀ cell ∈ full.tail, (log'.cell cell).aData = (log.cell cell).aData)
    (oneBuffLen : log'.oneBuffLen = log.oneBuffLen) (buffCnt : log'.buffCnt = log.buffCnt) :
    log'.Sated len full free := by
  refine ⟨fun cell member => ?_, fun none_ => ?_⟩
  · rw [cells cell member, oneBuffLen]
    exact sated.tight cell member
  · rw [overLimit, oneBuffLen, buffCnt]
    exact sated.limit none_

theorem Links.differ_tail (links : log.Links cells) (member : cell ∈ cells.tail) : cell.shmId ≠ log.prstBuf.shmId := by
  obtain ⟨behind, rfl⟩ := links.ring.eq_cons
  have around : log.Links ([] ++ log.prstBuf :: behind) := links
  exact around.differ member

/-- A cell that a record has not fitted in. -/
theorem Links.tight (links : log.Links cells) (member : cell ∈ cells)
    (narrow : (log.cell cell).getFreeLen < logLine.length) (within : logLine.length ≤ len) :
    log.oneBuffLen < (log.cell cell).aData.length + len := by
  rw [CBufferCell.getFreeLen, CBufferCell.curLength, links.sized cell member] at narrow
  omega

theorem Sated.appendLocked (sated : log.Sated len full free) (shape : log.Shape full free)
    (fits : logLine.length ≤ log.oneBuffLen) (within : logLine.length ≤ len)
    (done : log.appendLocked curSec logLine .succeeds = .ok (log', flag)) (shape' : log'.Shape full' free') :
    log'.Sated len full' free' := by
  rw [appendLocked_eq] at done
  rcases shape.seekCell fits curSec with ⟨rest, rfl, room, seeks⟩ | ⟨isFull, seeks⟩ |
    ⟨rest, moved, free₁, rfl, narrow, _, seeks, moves⟩
  · rw [seeks] at done
    cases done
    obtain ⟨rfl, rfl⟩ := (shape.append logLine).unique shape'
    refine sated.same (fun cell member => ?_) rfl rfl
    have differ := shape.links.differ (List.mem_append_left _ (List.mem_of_mem_tail member))
    exact congrArg CBufferCell.aData (cell_modify_other differ _)
  · rw [seeks] at done
    cases done
    have after : Shape { log with lastLogFailTime := curSec } full free :=
      ⟨shape.links.point _ _, shape.marks.point _ _, shape.cur⟩
    obtain ⟨rfl, rfl⟩ := after.unique shape'
    exact sated.same (fun _ _ => rfl) rfl rfl
  · rw [seeks] at done
    have left := (Prod.mk.inj (Except.ok.inj done)).1
    have shape₁ : moved.Shape (full ++ [log.curBuf]) free₁ := moves.shape
    have after : log'.Shape (full ++ [log.curBuf]) free₁ := by
      split at left <;> subst left
      · exact shape₁.append logLine
      · exact shape₁
    obtain ⟨rfl, rfl⟩ := after.unique shape'
    -- The record goes to a free cell, or to the first of the full ones, which has no room for it.
    have apart (cell : CellPtr) (member : cell ∈ (full ++ [log.curBuf]).tail) : cell.shmId ≠ moved.curBuf.shmId := by
      have cur := shape₁.cur
      cases free' with
      | nil =>
        have links := shape₁.links
        rw [List.append_nil] at links
        rw [← show moved.prstBuf = moved.curBuf from Option.some.inj cur]
        exact links.differ_tail member
      | cons first later =>
        obtain rfl := Option.some.inj cur
        exact shape₁.links.differ (List.mem_append_left _ (List.mem_of_mem_tail member))
    have data (cell : CellPtr) (member : cell ∈ (full ++ [log.curBuf]).tail) :
        (log'.cell cell).aData = (log.cell cell).aData := by
      have before := (moves.data cell (List.mem_of_mem_tail member)).trans (data_setFull ..)
      split at left <;> subst left
      · rw [cell_modify_other (apart cell member), before]
      · exact before
    have sizes : log'.oneBuffLen = log.oneBuffLen ∧ log'.buffCnt = moved.buffCnt := by
      split at left <;> subst left <;> exact ⟨moves.oneBuffLen, rfl⟩
    refine ⟨fun cell member => ?_, fun none_ => ?_⟩
    · rw [data cell member, sizes.1]
      cases full with
      | nil => cases member
      | cons first full =>
        rcases List.mem_append.mp member with old | new
        · exact sated.tight cell old
        · rw [List.mem_singleton.mp new]
          exact shape.links.tight (by simp) narrow within
    · rcases moves.outcome with ⟨some_, _⟩ | ⟨_, _, rfl, limit⟩
      · exact absurd none_ some_
      · have count := moves.count
        rw [none_] at count
        have same : moved.buffCnt = (log.modify log.curBuf setFull).buffCnt := by simpa using count.symm
        rw [overLimit, sizes.1, sizes.2, same]
        exact limit

theorem Sated.checkLocked (sated : log.Sated len full free) (shape : log.Shape full free)
    (done : log.checkLocked = .ok (log', flag)) (shape' : log'.Shape full' free') : log'.Sated len full' free' := by
  have again := done
  unfold CRingLog.checkLocked at done
  split at done
  · cases done
    obtain ⟨rfl, rfl⟩ := shape.unique shape'
    exact sated
  · split at done
    · rename_i isFree
      -- The consumer takes the only cell in which something is written.
      have none_ : full = [] := by
        cases full with
        | nil => rfl
        | cons first full =>
          have start : first = log.prstBuf := Option.some.inj shape.links.ring.head
          rw [start] at shape
          rw [(shape.marks.isFull log.prstBuf (by simp)).1] at isFree
          cases isFree
      subst none_
      split at done
      · cases done
      · rename_i pointers
        dsimp only at done
        split at done
        · cases done
        · cases done
          obtain ⟨_, _, full₁, free₁, made, after, cells, _⟩ := shape.checkLocked
          cases made.symm.trans again
          obtain ⟨rfl, rfl⟩ := after.unique shape'
          have single : full'.tail = [] := by
            rw [List.eq_nil_iff_forall_not_mem]
            intro cell member
            have apart : cell.shmId ≠ _ := after.links.differ_tail (by
              cases full' with
              | nil => cases member
              | cons first later => exact List.mem_append_left _ member)
            have status := (after.marks.isFull cell (List.mem_of_mem_tail member)).1
            have own : cell.shmId ≠ log.curBuf.shmId := by
              rw [not_not.mp pointers]
              exact apart
            have frame : (log.modify log.curBuf setFull).cell cell = log.cell cell := cell_modify_other own _
            change ((log.modify log.curBuf setFull).cell cell).status = .full at status
            have inFree : cell ∈ [] ++ free := cells ▸ List.mem_append_left _ (List.mem_of_mem_tail member)
            rw [frame, shape.marks.isFree cell inFree] at status
            cases status
          refine ⟨fun cell member => ?_, fun none_ => ?_⟩
          · rw [single] at member
            cases member
          · have two := after.links.two
            rw [none_, List.append_nil] at two
            have short := congrArg List.length single
            rw [List.length_tail, List.length_nil] at short
            omega
    · cases done
      obtain ⟨rfl, rfl⟩ := shape.unique shape'
      exact sated

theorem Sated.clearLocked (sated : log.Sated len (first :: full) free) (shape : log.Shape (first :: full) free)
    (done : log.clearLocked = .ok log') (shape' : log'.Shape full' free') : log'.Sated len full' free' := by
  obtain ⟨_, made, after, _, oneBuffLen, _⟩ := shape.clearLocked
  cases made.symm.trans done
  obtain ⟨rfl, rfl⟩ := after.unique shape'
  obtain ⟨_, _, frame⟩ := clearLocked_frame done
  refine ⟨fun cell member => ?_, fun none_ => by simp at none_⟩
  have inFull := List.mem_of_mem_tail member
  have apart : cell.shmId ≠ log.prstBuf.shmId := shape.links.differ_tail (List.mem_append_left _ inFull)
  rw [frame, cell_modify_other apart, oneBuffLen]
  exact sated.tight cell inFull

/-- Cells that hold so much each hold so much together. -/
theorem le_length_contents (least : ∀ cell ∈ cells, size ≤ (log.cell cell).aData.length) :
    cells.length * size ≤ (log.contents cells).length := by
  induction cells with
  | nil => simp
  | cons cell cells ih =>
    have here := least cell (by simp)
    have behind := ih fun other member => least other (by simp [member])
    rw [contents_cons, List.length_append, List.length_cons, Nat.succ_mul]
    omega

/-- Where there is no cell for a record, all but the first cell are as good as full, and no more can be added. -/
theorem Sated.blocked (sated : log.Sated len full free) (shape : log.Shape full free) (within : logLine.length ≤ len)
    (blocked : log.Blocked logLine) :
    log.overLimit = true ∧ ∀ cell ∈ (full ++ free).tail, log.oneBuffLen - len ≤ (log.cell cell).aData.length := by
  suffices tight : log.overLimit = true ∧
      ∀ cell ∈ (full ++ free).tail, log.oneBuffLen < (log.cell cell).aData.length + len by
    refine ⟨tight.1, fun cell member => ?_⟩
    have more := tight.2 cell member
    omega
  rcases blocked with isFull | ⟨isFree, narrow, ⟨nextBuf, next, isFull⟩, limit⟩
  · cases free with
    | nil =>
      rw [List.append_nil]
      exact ⟨sated.limit rfl, sated.tight⟩
    | cons first rest =>
      obtain rfl := Option.some.inj shape.cur
      rw [shape.marks.isFree log.curBuf (by simp)] at isFull
      cases isFull
  · obtain ⟨rest, rfl⟩ := shape.free_eq isFree
    refine ⟨limit, fun cell member => ?_⟩
    have following : (rest ++ [log.prstBuf]).head? = some nextBuf := shape.links.next_eq.symm.trans next
    cases rest with
    | cons second rest =>
      obtain rfl := Option.some.inj following
      rw [shape.marks.isFree second (by simp)] at isFull
      cases isFull
    | nil =>
      cases full with
      | nil => cases member
      | cons first full =>
        rcases List.mem_append.mp member with old | new
        · exact sated.tight cell old
        · rw [List.mem_singleton.mp new]
          exact shape.links.tight (by simp) narrow within

end CRingLog

namespace LogState

variable {s s' : LogState} {full free full' free' : List CellPtr} {len : Nat}

/-- What every reachable state keeps when no record is longer than `len`. -/
structure Fills (s : LogState) (len : Nat) (full free : List CellPtr) : Prop where
  keeps : s.Keeps full free
  small : s.Small
  short : (full ++ free).length + 1 = s.log.buffCnt
  within : ∀ producer, (s.producers producer).fits len
  sated : s.log.Sated len full free

theorem Fills.within_next (fills : s.Fills len full free) (may : step.Within len)
    (taken : s.act step = some (.ok s')) :
    ∀ producer, (s'.producers producer).fits len := by
  cases step with
  | enter producer curSec logLine =>
    simp only [act] at taken
    split at taken
    · split at taken
      · cases taken
        exact fills.within
      · cases taken
        exact fits_update fills.within producer _ may
    · cases taken
  | unthrottle producer =>
    simp only [act] at taken
    split at taken
    · rename_i curSec logLine passed
      have within := fills.within producer
      rw [passed] at within
      cases taken
      exact fits_update fills.within producer _ within
    · cases taken
  | append producer =>
    simp only [act] at taken
    split at taken
    · obtain ⟨_, _, rest⟩ := bind_eq_ok.mp (Option.some.inj taken)
      cases rest
      exact fits_update fills.within producer _ trivial
    · cases taken
  | check =>
    simp only [act] at taken
    split at taken
    · obtain ⟨_, _, rest⟩ := bind_eq_ok.mp (Option.some.inj taken)
      cases rest
      exact fills.within
    · cases taken
  | persist opened =>
    simp only [act] at taken
    split at taken
    · split at taken <;> cases taken <;> exact fills.within
    · cases taken
  | clear =>
    simp only [act] at taken
    split at taken
    · obtain ⟨_, _, rest⟩ := bind_eq_ok.mp (Option.some.inj taken)
      cases rest
      exact fills.within
    · cases taken

theorem Fills.sated_next (fills : s.Fills len full free) (taken : s.act step = some (.ok s'))
    (shape' : s'.log.Shape full' free') : s'.log.Sated len full' free' := by
  obtain ⟨keeps, _, _, within, sated⟩ := fills
  have shape := keeps.shape
  cases step with
  | enter producer curSec logLine =>
    simp only [act] at taken
    split at taken
    · split at taken <;> cases taken <;> obtain ⟨rfl, rfl⟩ := shape.unique shape' <;> exact sated
    · cases taken
  | unthrottle producer =>
    simp only [act] at taken
    split at taken
    · cases taken
      obtain ⟨rfl, rfl⟩ := shape.unthrottle.unique shape'
      exact sated.same (fun _ _ => rfl) rfl rfl
    · cases taken
  | append producer =>
    simp only [act] at taken
    split at taken
    · rename_i curSec logLine locking
      have fits := keeps.fits producer
      have short := within producer
      rw [locking] at fits short
      obtain ⟨⟨log, accepted⟩, done, rest⟩ := bind_eq_ok.mp (Option.some.inj taken)
      cases rest
      exact sated.appendLocked shape fits short done shape'
    · cases taken
  | check =>
    simp only [act] at taken
    split at taken
    · obtain ⟨⟨log, go⟩, done, rest⟩ := bind_eq_ok.mp (Option.some.inj taken)
      cases rest
      exact sated.checkLocked shape done shape'
    · cases taken
  | persist opened =>
    simp only [act] at taken
    split at taken
    · split at taken <;> cases taken <;> obtain ⟨rfl, rfl⟩ := shape.unique shape' <;> exact sated
    · cases taken
  | clear =>
    simp only [act] at taken
    split at taken
    · rename_i clearing
      obtain ⟨first, full, rfl⟩ :=
        List.exists_cons_of_ne_nil (keeps.busy (by rw [clearing]; exact Consumer.noConfusion))
      obtain ⟨log, done, same⟩ := bind_eq_ok.mp (Option.some.inj taken)
      cases same
      exact sated.clearLocked shape done shape'
    · cases taken

theorem start_fills {log : CRingLog} (sized : log.Sized) : ∃ cells, (start log).Fills len [] cells := by
  obtain ⟨_, _, _, _, head, second, _, built⟩ := sized.1.built
  exact ⟨[head, second], keeps_start built.shape, start_small sized, built.buffCnt.symm, fun _ => trivial,
    ⟨fun _ member => absurd member List.not_mem_nil, fun none_ => absurd none_ (List.cons_ne_nil _ _)⟩⟩

theorem reachable_fills (reachable : (logSystem CRingLog.Sized).Reachable (fun _ step => step.Within len) s) :
    ∃ full free, s.Fills len full free := by
  refine reachable.invariant (fun s => ∃ full free, s.Fills len full free) ?_ ?_
  · rintro s ⟨log, sized, rfl⟩
    obtain ⟨cells, fills⟩ : ∃ cells, (start log).Fills len [] cells := start_fills sized
    exact ⟨[], cells, fills⟩
  · rintro s step s' ⟨full, free, fills⟩ may taken
    obtain ⟨_, full', free', same, follows⟩ := fills.keeps.act taken
    cases same
    have count := follows.count
    have short := fills.short
    exact ⟨full', free', follows.keeps, fills.small.extends (act_extends taken), by omega, fills.within_next may taken,
      fills.sated_next taken follows.keeps.shape⟩

end LogState

/-- What the ring holds when a record of a producer that finds no failure noted is dropped: the memory for one more
cell is not there, and in all cells but one there is no room for a record of any length that occurs. -/
structure CRingLog.Saturated (log : CRingLog) (len : Nat) (cells : List CellPtr) : Prop where
  ring : Circular (fun cell => (log.cell cell).next) log.prstBuf cells
  count : cells.length + 1 = log.buffCnt
  limit : LOGFILEMEMLIMIT < log.oneBuffLen * (log.buffCnt + 1)
  waiting : (cells.length - 1) * (log.oneBuffLen - len) ≤ (log.contents cells).length

/-- With records that fit into the line buffer, 2900 MB wait to be written. -/
theorem CRingLog.Saturated.enough {log : CRingLog} (saturated : log.Saturated len cells) (short : len ≤ ONELOGLEN)
    (least : 10 * 1024 * 1024 ≤ log.oneBuffLen) (most : log.oneBuffLen ≤ 50 * 1024 * 1024) :
    2900 * 1024 * 1024 ≤ (log.contents cells).length := by
  obtain ⟨ring, count, limit, waiting⟩ := saturated
  obtain ⟨behind, rfl⟩ := ring.eq_cons
  rw [List.length_cons] at count waiting
  rw [← count] at limit
  have split : log.oneBuffLen * (behind.length + 1 + 1 + 1) = behind.length * log.oneBuffLen + 3 * log.oneBuffLen := by
    ring
  have lost : behind.length * len ≤ behind.length * 4096 := Nat.mul_le_mul_left _ short
  have sizes : behind.length * 10485760 ≤ behind.length * log.oneBuffLen := Nat.mul_le_mul_left _ least
  rw [Nat.add_sub_cancel, Nat.mul_sub] at waiting
  rw [split] at limit
  change 3221225472 < _ at limit
  change _ ≤ 52428800 at most
  change 3040870400 ≤ _
  omega

/-- No record is dropped, unless for the failure of another, before the ring is as good as full. -/
theorem saturated_of_drops (reachable : (logSystem CRingLog.Sized).Reachable (fun _ step => step.Within len) s)
    (locking : s.producers producer = .locking curSec logLine) (quiet : s.log.lastLogFailTime = 0)
    (drops : s.log.Drops curSec logLine .succeeds) :
    ∃ cells, s.log.Saturated len cells ∧ (len ≤ ONELOGLEN → 2900 * 1024 * 1024 ≤ (s.log.contents cells).length) := by
  obtain ⟨full, free, fills⟩ := LogState.reachable_fills reachable
  have fits := fills.keeps.fits producer
  have within := fills.within producer
  rw [locking] at fits within
  have blocked := (fills.keeps.shape.drops_iff fits curSec).mpr (fun spoiled => spoiled.1 quiet) drops
  obtain ⟨limit, tight⟩ := fills.sated.blocked fills.keeps.shape within blocked
  have saturated : s.log.Saturated len (full ++ free) := by
    refine ⟨fills.keeps.shape.links.ring, fills.short, fills.small.overLimit_iff.mp limit, ?_⟩
    obtain ⟨behind, same⟩ := fills.keeps.shape.links.ring.eq_cons
    rw [same] at tight ⊢
    have together := CRingLog.le_length_contents tight
    rw [CRingLog.contents_cons, List.length_append]
    exact together.trans (Nat.le_add_left ..)
  exact ⟨_, saturated, fun short => saturated.enough short fills.small.least fills.small.most⟩

/-- With 101 cells full of records of a kilobyte, the next one is dropped. -/
theorem packed_saturated :
    ∃ log s cells, CRingLog.create .empty none 0 (30 * 1024 * 1024) .succeeds .succeeds .succeeds = .ok (some log) ∧
      (logSystem CRingLog.Sized).Run (.start log)
        (kilobyteSteps 7 3102720 ++ [.enter 0 7 kilobyte, .unthrottle 0]) s ∧
      s.log.Drops 7 kilobyte .succeeds ∧ s.log.Saturated 1024 cells := by
  obtain ⟨log, done, size, _, _, _, _, _, _, built⟩ := CRingLog.construct_built .empty (30 * 1024 * 1024)
  have sized : log.Sized :=
    ⟨⟨.empty, none, 0, 30 * 1024 * 1024, done⟩, _, size.trans (logMemSet_self (by decide) (by decide)).symm⟩
  obtain ⟨s, full, run, packed⟩ := LogState.packed_run CRingLog.Sized built size 7 99 le_rfl
  have locks := run.append (LogState.run_lock CRingLog.Sized 0 7 (congrFun packed.idle 0) packed.quiet packed.fits)
  have limit := (packed.overLimit_iff le_rfl).mpr rfl
  obtain ⟨isFree, narrow⟩ := packed.narrow
  have moves := (packed.filled.moveOn_limit limit 7 .succeeds).1
  have drops : s.log.Drops 7 kilobyte .succeeds := by
    refine ⟨_, _, CRingLog.seekCell_of_moveOn isFree narrow moves, fun calls => ?_⟩
    cases calls.1
  have short : ∀ step ∈ kilobyteSteps 7 3102720 ++ [.enter 0 7 kilobyte, .unthrottle 0], ∀ _ : LogState,
      step.Within 1024 := by
    intro step member _
    have within : kilobyte.length ≤ 1024 := length_kilobyte.le
    rcases List.mem_append.mp member with sent | last
    · have inside := mem_kilobyteSteps sent
      simp only [sendSteps, List.mem_cons, List.not_mem_nil, or_false] at inside
      rcases inside with rfl | rfl | rfl
      · exact within
      · trivial
      · trivial
    · rcases List.mem_pair.mp last with rfl | rfl
      · exact within
      · trivial
  have reachable : (logSystem CRingLog.Sized).Reachable (fun _ step => step.Within 1024)
      (s.setProducer 0 (.locking 7 kilobyte)) :=
    System.Reachable.runOf (.init ⟨log, sized, rfl⟩) short locks
  have locking : (s.setProducer 0 (.locking 7 kilobyte)).producers 0 = .locking 7 kilobyte := by
    simp only [LogState.setProducer, Function.update_self]
  obtain ⟨cells, saturated, _⟩ := saturated_of_drops reachable locking packed.quiet drops
  exact ⟨log, _, cells, done, locks, drops, saturated⟩

end WSlyh.Log
