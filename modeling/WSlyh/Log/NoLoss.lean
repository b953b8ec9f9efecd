import WSlyh.Log.Filling

/-! Nothing that was accepted is lost, repeated or reordered between the producers and the
file, as long as no producer meets the memory limit in second 0 of the clock, which the log
cannot tell from no failure. -/

namespace WSlyh.Log

open Libc Lib

/-- The cells from `m_pPrstBuf` to `m_pCurBuf`, or all of them once round when both pointers
are at the same full cell. -/
structure CRingLog.Pending (log : CRingLog) (cells : List CellPtr) : Prop where
  head : cells.head? = some log.prstBuf
  nodup : cells.Nodup
  once : log.curBuf = log.prstBuf ∧ (log.cell log.curBuf).status = .full →
    Leads (fun cell => (log.cell cell).next) cells log.prstBuf
  path : ¬ (log.curBuf = log.prstBuf ∧ (log.cell log.curBuf).status = .full) →
    ∃ before, cells = before ++ [log.curBuf] ∧ Leads (fun cell => (log.cell cell).next) before log.curBuf

/-- The file, and behind it what is still in the ring, are the accepted records in order. The
cell at `m_pPrstBuf` does not count while it is written and not yet cleared. -/
structure LogState.Lossless (s : LogState) (cells : List CellPtr) : Prop where
  pending : s.log.Pending cells
  journal : s.persisted ++ s.pending cells = s.accepted.flatten

namespace CRingLog

variable {log : CRingLog} {full free : List CellPtr}

theorem Shape.pending (shape : log.Shape full free) : log.Pending (full ++ free.take 1) := by
  cases free with
  | nil =>
    have ring := shape.links.ring
    rw [List.append_nil] at ring
    have cur : log.prstBuf = log.curBuf := Option.some.inj shape.cur
    obtain ⟨rest, start⟩ := ring.eq_cons
    have status := (shape.marks.isFull log.prstBuf (by rw [start]; simp)).1
    refine ⟨by simpa using ring.head, by simpa using ring.nodup, fun _ => by simpa using ring.leads, fun apart => ?_⟩
    exact absurd ⟨cur.symm, by rw [← cur]; exact status⟩ apart
  | cons first rest =>
    have cur : first = log.curBuf := Option.some.inj shape.cur
    subst cur
    have status := shape.marks.isFree log.curBuf (by simp)
    obtain ⟨before, _⟩ := leads_append.mp shape.links.ring.leads
    refine ⟨?_, ?_, fun both => ?_, fun _ => ⟨full, rfl, before⟩⟩
    · rw [← shape.links.ring.head]
      cases full <;> rfl
    · refine shape.links.ring.nodup.sublist ?_
      exact (List.Sublist.refl full).append (by simp)
    · rw [status] at both
      cases both.2

theorem Shape.pending_unique (shape : log.Shape full []) (pending : log.Pending cells) : cells = full := by
  have ring := shape.links.ring
  rw [List.append_nil] at ring
  have cur : log.prstBuf = log.curBuf := Option.some.inj shape.cur
  obtain ⟨rest, start⟩ := ring.eq_cons
  have status := (shape.marks.isFull log.prstBuf (by rw [start]; simp)).1
  have once := pending.once ⟨cur.symm, by rw [← cur]; exact status⟩
  exact Circular.unique ⟨pending.head, once, pending.nodup⟩ ring

end CRingLog

namespace LogState

variable {s : LogState} {full free : List CellPtr}

/-- Only the first free cell holds anything. -/
theorem Keeps.pending_take (keeps : s.Keeps full free) :
    s.pending (full ++ free.take 1) = s.pending (full ++ free) := by
  have tail : s.log.contents (free.drop 1) = [] :=
    CRingLog.contents_empty fun cell member => keeps.shape.marks.empty cell (by rwa [← List.drop_one])
  have whole : s.log.contents free = s.log.contents (free.take 1) := by
    conv => lhs; rw [← List.take_append_drop 1 free, CRingLog.contents_append, tail, List.append_nil]
  unfold pending
  split
  · rename_i clearing
    obtain ⟨first, rest, rfl⟩ := List.exists_cons_of_ne_nil (keeps.busy (by simp [clearing]))
    simp only [List.cons_append, List.tail_cons, CRingLog.contents_append, whole]
  · simp only [CRingLog.contents_append, whole]

theorem Keeps.lossless (keeps : s.Keeps full free)
    (journal : s.persisted ++ s.pending (full ++ free) = s.accepted.flatten) :
    s.Lossless (full ++ free.take 1) :=
  ⟨keeps.shape.pending, by rw [keeps.pending_take, journal]⟩

theorem reachable_journal (reachable : (logSystem CRingLog.Started).Reachable Harmless s) :
    ∃ full free, s.Keeps full free ∧ s.persisted ++ s.pending (full ++ free) = s.accepted.flatten := by
  refine reachable.invariant
    (fun s => ∃ full free, s.Keeps full free ∧ s.persisted ++ s.pending (full ++ free) = s.accepted.flatten) ?_ ?_
  · rintro s ⟨log, ⟨cells, shape, empty⟩, rfl⟩
    exact ⟨[], cells, keeps_start shape, by simpa [pending, start] using empty⟩
  · rintro s step s' ⟨full, free, keeps, journal⟩ harmless taken
    obtain ⟨next, full', free', same, follows⟩ := keeps.act taken
    cases same
    obtain ⟨records, accepted, moved⟩ := follows.journal harmless
    exact ⟨full', free', follows.keeps, by rw [moved, journal, accepted, List.flatten_append]⟩

end LogState

/-- The clock reading is not one of second 0. -/
def Producer.Dated : Producer → Prop
  | .idle => True
  | .passed curSec _ | .locking curSec _ => curSec ≠ 0

def LogStep.Dated : LogStep → Prop
  | .enter _ curSec _ => curSec ≠ 0
  | _ => True

namespace LogState

variable {s s' : LogState}

theorem dated_update {producers : Nat → Producer} (dated : ∀ producer, (producers producer).Dated) (producer : Nat)
    {state : Producer} (new : state.Dated) (other : Nat) : (Function.update producers producer state other).Dated :=
  (Function.forall_update_iff producers fun _ state => state.Dated).mpr ⟨new, fun other _ => dated other⟩ other

theorem act_dated (dated : ∀ producer, (s.producers producer).Dated) (reading : step.Dated)
    (taken : s.act step = some (.ok s')) : ∀ producer, (s'.producers producer).Dated := by
  cases step with
  | enter producer curSec logLine =>
    simp only [act] at taken
    split at taken
    · split at taken <;> cases taken
      · exact dated
      · exact dated_update dated producer reading
    · cases taken
  | unthrottle producer =>
    simp only [act] at taken
    split at taken
    · rename_i curSec logLine passed
      cases taken
      have before := dated producer
      rw [passed] at before
      exact dated_update dated producer before
    · cases taken
  | append producer =>
    simp only [act] at taken
    split at taken
    · obtain ⟨result, _, same⟩ := bind_eq_ok.mp (Option.some.inj taken)
      cases same
      exact dated_update dated producer trivial
    · cases taken
  | check =>
    simp only [act] at taken
    split at taken
    · obtain ⟨result, _, same⟩ := bind_eq_ok.mp (Option.some.inj taken)
      cases same
      exact dated
    · cases taken
  | persist opened =>
    simp only [act] at taken
    split at taken
    · cases opened <;> cases taken <;> exact dated
    · cases taken
  | clear =>
    simp only [act] at taken
    split at taken
    · obtain ⟨result, _, same⟩ := bind_eq_ok.mp (Option.some.inj taken)
      cases same
      exact dated
    · cases taken

/-- A run in which the clock never reads second 0 is harmless. -/
theorem harmless_of_dated (reachable : (logSystem initial).Reachable (fun _ step => step.Dated) s) :
    (logSystem initial).Reachable Harmless s ∧ ∀ producer, (s.producers producer).Dated := by
  induction reachable with
  | init start =>
    refine ⟨.init start, ?_⟩
    obtain ⟨log, _, rfl⟩ := start
    exact fun _ => trivial
  | step before reading taken ih =>
    obtain ⟨harmless, dated⟩ := ih
    refine ⟨.step harmless ?_ taken, act_dated dated reading taken⟩
    rintro producer curSec logLine - locking ⟨_, zero⟩
    have late := dated producer
    rw [locking] at late
    exact late zero

end LogState

theorem overflowSteps_dated : ∀ step ∈ overflowSteps, step.Dated := by
  intro step member
  have sends (member : step ∈ sendSteps 7 kilobyte) : step.Dated := by
    simp only [sendSteps, List.mem_cons, List.not_mem_nil, or_false] at member
    rcases member with rfl | rfl | rfl
    · exact (by decide : 7 ≠ 0)
    · trivial
    · trivial
  rcases List.mem_append.mp member with member | drain
  · rcases List.mem_append.mp member with fills | last
    · exact sends (mem_kilobyteSteps fills)
    · exact sends last
  · simp only [drainSteps, List.mem_cons, List.not_mem_nil, or_false] at drain
    rcases drain with rfl | rfl | rfl <;> trivial

/-- The constructor's log comes to the memory limit without harm. -/
theorem LogState.overflowed_harmless :
    ∃ log s, CRingLog.create .empty none 0 (30 * 1024 * 1024) .succeeds .succeeds .succeeds = .ok (some log) ∧
      (logSystem CRingLog.Started).Run (.start log) overflowSteps s ∧ s.Overflowed ∧
      (logSystem CRingLog.Started).Reachable Harmless s := by
  obtain ⟨log, done, size, _, _, _, _, _, _, built⟩ := CRingLog.construct_built .empty (30 * 1024 * 1024)
  have started : log.Started := CRingLog.Constructed.started ⟨.empty, none, 0, 30 * 1024 * 1024, done⟩
  obtain ⟨s, run, overflowed⟩ := overflow_run CRingLog.Started built size
  have initial : (logSystem CRingLog.Started).Reachable (fun _ step => step.Dated) (.start log) :=
    .init ⟨log, started, rfl⟩
  have reachable := initial.runOf (fun step member _ => overflowSteps_dated step member) run
  exact ⟨log, s, done, run, overflowed, (harmless_of_dated reachable).1⟩

/-- In every run without such a step, every state is without loss. -/
theorem lossless_of_reachable (reachable : (logSystem CRingLog.Started).Reachable LogState.Harmless s) :
    ∃ cells, s.Lossless cells := by
  obtain ⟨full, free, keeps, journal⟩ := LogState.reachable_journal reachable
  exact ⟨_, keeps.lossless journal⟩

theorem overflowed_lossless :
    ∃ log s, CRingLog.create .empty none 0 (30 * 1024 * 1024) .succeeds .succeeds .succeeds = .ok (some log) ∧
      (logSystem CRingLog.Started).Run (.start log) overflowSteps s ∧ s.log.buffCnt = 102 ∧
      s.persisted.length = 30 * 1024 * 1024 ∧ s.accepted = List.replicate 3102720 kilobyte ∧
      ∃ cells, s.Lossless cells := by
  obtain ⟨log, s, done, run, overflowed, reachable⟩ := LogState.overflowed_harmless
  exact ⟨log, s, done, run, overflowed.buffCnt, overflowed.persisted, overflowed.accepted,
    lossless_of_reachable reachable⟩

namespace LogState

variable {s : LogState} {full : List CellPtr} {sent : Nat}

theorem length_contents {log : CRingLog} {cells : List CellPtr}
    (brim : ∀ cell ∈ cells, (log.cell cell).aData.length = size) :
    (log.contents cells).length = cells.length * size := by
  induction cells with
  | nil => simp
  | cons cell cells ih =>
    rw [CRingLog.contents_cons, List.length_append, brim cell (by simp),
      ih fun other member => brim other (by simp [member]), List.length_cons, Nat.succ_mul, Nat.add_comm]

/-- All cells are full to the brim, and more records count as accepted than they hold. -/
structure Overfull (s : LogState) (cells : List CellPtr) : Prop where
  shape : s.log.Shape cells []
  consumer : s.consumer = .checking
  persisted : s.persisted = []
  short : (s.log.contents cells).length < s.accepted.flatten.length

/-- At the memory limit the next record counts as accepted, and is nowhere. -/
theorem Packed.overfill (initial : CRingLog → Prop) (packed : s.Packed full [] (30 * 1024 * 1024) 102 sent) :
    ∃ s', (logSystem initial).Run s (sendSteps 0 kilobyte) s' ∧ s'.Overfull (full ++ [s.log.curBuf]) := by
  obtain ⟨log', done, _, oneBuffLen, _, shape, brim⟩ := packed.limited 0
  rw [if_pos rfl] at done
  refine ⟨_, run_send initial packed.idle packed.quiet packed.fits done, shape.append kilobyte, packed.consumer,
    packed.persisted, ?_⟩
  have after : ∀ cell ∈ full ++ [s.log.curBuf],
      ((log'.modify log'.curBuf (·.append kilobyte)).cell cell).aData.length = 30 * 1024 * 1024 := by
    intro cell member
    have noRoom : (log'.cell cell).getFreeLen < kilobyte.length := by
      rw [CBufferCell.getFreeLen, CBufferCell.curLength, brim cell member,
        shape.links.sized cell (List.mem_append_left _ member), oneBuffLen, length_kilobyte]
      omega
    rw [CRingLog.cell_modify]
    split
    · rw [CBufferCell.append, if_pos noRoom]
      exact brim cell member
    · exact brim cell member
  have cells : (full ++ [s.log.curBuf]).length * (30 * 1024 * 1024) = sent * 1024 := by
    rw [packed.total, List.length_append, List.length_singleton, Nat.add_mul full.length 1, Nat.one_mul]
  have records : (s.accepted ++ [kilobyte]).flatten.length = sent * 1024 + 1024 := by
    rw [packed.accepted, List.flatten_append, List.length_append, List.flatten_singleton, length_kilobyte]
    simp [length_kilobyte]
  change ((log'.modify log'.curBuf (·.append kilobyte)).contents _).length < (s.accepted ++ [kilobyte]).flatten.length
  rw [length_contents after, cells, records]
  omega

theorem Overfull.not_lossless (overfull : s.Overfull full) : ¬ ∃ cells, s.Lossless cells := by
  rintro ⟨cells, lossless⟩
  have journal := lossless.journal
  simp only [pending, overfull.consumer, overfull.persisted, reduceCtorEq, if_false, List.nil_append,
    overfull.shape.pending_unique lossless.pending] at journal
  have short := overfull.short
  rw [journal] at short
  exact absurd short (lt_irrefl _)

/-- The constructor's ring after 3102721 records in second 0. -/
theorem overfull_run {log : CRingLog} (initial : CRingLog → Prop)
    (built : log.Built shm₁ shm₂ shm₃ shm head second third) (size : log.oneBuffLen = 30 * 1024 * 1024) :
    ∃ s cells, (logSystem initial).Run (start log) (kilobyteSteps 0 3102721) s ∧ s.Overfull cells := by
  obtain ⟨s, full, run, packed⟩ := packed_run initial built size 0 99 le_rfl
  obtain ⟨s', sent, overfull⟩ := packed.overfill initial
  refine ⟨s', _, ?_, overfull⟩
  rw [show 3102721 = (99 + 2) * 30720 + 1 from rfl, kilobyteSteps_add, kilobyteSteps_one]
  exact run.append sent

end LogState

/-- The constructor's log takes 3102721 records of a kilobyte in second 0, and holds one less. -/
theorem second_zero_not_lossless :
    ∃ log s, CRingLog.create .empty none 0 (30 * 1024 * 1024) .succeeds .succeeds .succeeds = .ok (some log) ∧
      (logSystem CRingLog.Started).Run (.start log) (kilobyteSteps 0 3102721) s ∧ ¬ ∃ cells, s.Lossless cells := by
  obtain ⟨log, done, size, _, _, _, _, _, _, built⟩ := CRingLog.construct_built .empty (30 * 1024 * 1024)
  obtain ⟨s, cells, run, overfull⟩ := LogState.overfull_run CRingLog.Started built size
  exact ⟨log, s, done, run, overfull.not_lossless⟩

end WSlyh.Log
