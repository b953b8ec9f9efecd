import Mathlib.Algebra.Order.BigOperators.Group.Finset
import WSlyh.Lib.Transition
import WSlyh.Lib.Progress
import WSlyh.Log.NoLoss

/-! The log catches up. When no new record comes, the producers that are under way finish, the
consumer brings everything that was accepted into the file, and then it waits at an empty ring. -/

namespace WSlyh.Log

open Libc Lib

/-- A step by which a thread goes on with what it has begun. The consumer does not wait at a cell in which
something is written, and the log file can be opened. -/
def LogState.GoesOn (s : LogState) : LogStep → Prop
  | .enter _ _ _ => False
  | .unthrottle _ => True
  | .append producer => s.Harmless (.append producer)
  | .check => (s.log.cell s.log.prstBuf).aData ≠ []
  | .persist opened => opened = true
  | .clear => True

/-- Everything is in the file, nobody is under way, and all cells are free for other records. -/
structure LogState.Drained (s : LogState) : Prop where
  file : s.persisted = s.accepted.flatten
  producers : ∀ producer, s.producers producer = .idle
  consumer : s.consumer = .checking
  pointers : s.log.curBuf = s.log.prstBuf
  cells : ∃ cells, Circular (fun cell => (s.log.cell cell).next) s.log.prstBuf cells ∧
    ∀ cell ∈ cells, (s.log.cell cell).status = .free ∧ (s.log.cell cell).aData = []

/-- The cells in which something is written. -/
def CRingLog.written (log : CRingLog) (cells : List CellPtr) : Nat :=
  cells.countP fun cell => (log.cell cell).aData ≠ []

namespace CRingLog

variable {log log' : CRingLog} {full free cells : List CellPtr} {curSec : Nat} {logLine : Bytes}

theorem written_append (log : CRingLog) (front back : List CellPtr) :
    log.written (front ++ back) = log.written front + log.written back := List.countP_append

theorem written_congr (same : ∀ cell ∈ cells, (log'.cell cell).aData = (log.cell cell).aData) :
    log'.written cells = log.written cells := by
  apply List.countP_congr
  intro cell member
  rw [same cell member]

theorem written_empty (empty : ∀ cell ∈ cells, (log.cell cell).aData = []) : log.written cells = 0 := by
  rw [written, List.countP_eq_zero]
  intro cell member
  simp [empty cell member]

theorem Marks.written_full (marks : log.Marks full free) : log.written full = full.length := by
  rw [written, List.countP_eq_length]
  intro cell member
  simp [(marks.isFull cell member).2]

/-- Only one cell that is not full holds anything. -/
theorem Marks.written_le (marks : log.Marks full free) : log.written (full ++ free) ≤ full.length + 1 := by
  rw [written_append, marks.written_full]
  cases free with
  | nil => simp [written]
  | cons first rest =>
    have none_ : log.written rest = 0 := written_empty marks.empty
    have one : log.written [first] ≤ 1 := List.countP_le_length
    rw [show first :: rest = [first] ++ rest from rfl, written_append, none_]
    omega

/-- A producer's section writes to one cell more at most. -/
theorem Shape.appendLocked_written (shape : log.Shape full free) (fits : logLine.length ≤ log.oneBuffLen)
    (done : log.appendLocked curSec logLine .succeeds = .ok (log', flag)) (shape' : log'.Shape full' free') :
    log'.written (full' ++ free') ≤ log.written (full ++ free) + 1 := by
  rw [appendLocked_eq] at done
  have least : full.length ≤ log.written (full ++ free) := by
    rw [written_append, shape.marks.written_full]
    exact Nat.le_add_right ..
  -- The cells of `shape'` are those that the section leaves.
  have bound {full₁ free₁ : List CellPtr} (after : log'.Shape full₁ free₁) :
      log'.written (full' ++ free') ≤ full₁.length + 1 := by
    rw [shape'.links.ring.unique after.links.ring]
    exact after.marks.written_le
  rcases shape.seekCell fits curSec with ⟨rest, rfl, room, seeks⟩ | ⟨isFull, seeks⟩ |
    ⟨rest, moved, free₁, rfl, narrow, _, seeks, moves⟩
  · rw [seeks] at done
    cases done
    have after := bound (shape.append logLine)
    omega
  · rw [seeks] at done
    cases done
    have after : Shape { log with lastLogFailTime := curSec } full free :=
      ⟨shape.links.point _ _, shape.marks.point _ _, shape.cur⟩
    rw [shape'.links.ring.unique after.links.ring]
    exact Nat.le_succ _
  · rw [seeks] at done
    have more : log.written (full ++ log.curBuf :: rest) = full.length + 1 := by
      have held : log.written [log.curBuf] = 1 := by
        simp [written, shape.nonempty_of_narrow narrow fits]
      have none_ : log.written rest = 0 := written_empty shape.marks.empty
      rw [written_append, shape.marks.written_full, show log.curBuf :: rest = [log.curBuf] ++ rest from rfl,
        written_append, held, none_]
    have after : log'.written (full' ++ free') ≤ (full ++ [log.curBuf]).length + 1 := by
      have left := (Prod.mk.inj (Except.ok.inj done)).1
      cases quiet : moved.lastLogFailTime == 0 with
      | true =>
        rw [quiet, if_pos rfl] at left
        subst left
        exact bound (moves.shape.append logLine)
      | false =>
        rw [quiet, if_neg Bool.false_ne_true] at left
        subst left
        exact bound moves.shape
    rw [more]
    simpa using after

theorem Shape.checkLocked_written (shape : log.Shape full free) (held : (log.cell log.prstBuf).aData ≠ [])
    (done : log.checkLocked = .ok (log', flag)) (shape' : log'.Shape full' free') :
    flag = true ∧ log'.written (full' ++ free') = log.written (full ++ free) := by
  obtain ⟨_, go, full₁, free₁, made, after, cells, data, _⟩ := shape.checkLocked
  cases made.symm.trans done
  constructor
  · unfold CRingLog.checkLocked at done
    split at done
    · rename_i empty
      simp [CBufferCell.isEmpty, CBufferCell.curLength, held] at empty
    · split at done
      · split at done
        · cases done
        · dsimp only at done
          split at done
          · cases done
          · exact (Prod.mk.inj (Except.ok.inj done)).2.symm
      · exact (Prod.mk.inj (Except.ok.inj done)).2.symm
  · rw [shape'.links.ring.unique after.links.ring, cells]
    exact written_congr fun cell _ => data cell

theorem Shape.clearLocked_written (shape : log.Shape (first :: full) free) (done : log.clearLocked = .ok log')
    (shape' : log'.Shape full' free') : log'.written (full' ++ free') + 1 = log.written (first :: full ++ free) := by
  obtain ⟨_, made, after, _⟩ := shape.clearLocked
  cases made.symm.trans done
  obtain ⟨_, _, frame⟩ := clearLocked_frame done
  have start : first = log.prstBuf := Option.some.inj shape.links.ring.head
  subst start
  have links : log.Links ([] ++ log.prstBuf :: (full ++ free)) := shape.links
  have others : log'.written (full ++ free) = log.written (full ++ free) := by
    refine written_congr fun cell member => ?_
    rw [frame, cell_modify_other (links.differ member)]
  have cleared : log'.written [log.prstBuf] = 0 := by
    refine written_empty fun cell member => ?_
    rw [List.mem_singleton.mp member, frame, cell_modify_self]
    rfl
  have held : log.written [log.prstBuf] = 1 := by
    simp [written, (shape.marks.isFull log.prstBuf (by simp)).2]
  rw [shape'.links.ring.unique after.links.ring, ← List.append_assoc, log'.written_append (full ++ free),
    others, cleared, show log.prstBuf :: full ++ free = [log.prstBuf] ++ (full ++ free) from rfl,
    log.written_append [log.prstBuf], held]
  omega

end CRingLog

/-- The steps that the producer has left, with those that its record means for the consumer. -/
def Producer.due : Producer → Nat
  | .idle => 0
  | .locking _ _ => 4
  | .passed _ _ => 5

/-- The steps of its round that the consumer has behind it. -/
def Consumer.behind : Consumer → Nat
  | .checking => 0
  | .persisting => 1
  | .clearing => 2

namespace LogState

variable {s s' : LogState} {full free : List CellPtr} {calls : Finset Nat}

/-- What the reachable states keep, with the steps that are left. -/
structure Ranks (s : LogState) (full free : List CellPtr) (calls : Finset Nat) (n : Nat) : Prop where
  keeps : s.Keeps full free
  journal : s.persisted ++ s.pending (full ++ free) = s.accepted.flatten
  idle : ∀ producer ∉ calls, s.producers producer = .idle
  rank : n + s.consumer.behind = 3 * s.log.written (full ++ free) + ∑ producer ∈ calls, (s.producers producer).due

theorem due_setProducer (idle : ∀ producer ∉ calls, s.producers producer = .idle)
    (busy : s.producers producer = before) (under : before ≠ .idle) (state : Producer) :
    producer ∈ calls ∧ ∑ other ∈ calls, (Function.update s.producers producer state other).due + before.due =
      ∑ other ∈ calls, (s.producers other).due + state.due := by
  have member : producer ∈ calls := by
    apply Classical.byContradiction
    intro apart
    exact under (busy.symm.trans (idle producer apart))
  exact ⟨member, busy ▸ sum_update s.producers member state Producer.due⟩

theorem setProducer_idle (idle : ∀ producer ∉ calls, s.producers producer = .idle) (member : producer ∈ calls)
    (state : Producer) : ∀ other ∉ calls, Function.update s.producers producer state other = .idle := by
  intro other apart
  have differ : other ≠ producer := fun same => apart (same ▸ member)
  rw [Function.update_of_ne differ]
  exact idle other apart

/-- A consumer that has begun its round has a full cell before it. -/
theorem Keeps.behind_le (keeps : s.Keeps full free) : s.consumer.behind ≤ 3 * s.log.written (full ++ free) := by
  have least := keeps.shape.marks.written_full
  rw [CRingLog.written_append, least]
  cases consumer : s.consumer with
  | checking => exact Nat.zero_le _
  | persisting | clearing =>
    have some_ := List.length_pos_of_ne_nil (keeps.busy (by rw [consumer]; exact Consumer.noConfusion))
    simp only [Consumer.behind]
    omega

/-- Each such step leaves fewer. -/
theorem Ranks.spends {step : LogStep} (ranks : s.Ranks full free calls n) (onward : s.GoesOn step)
    (taken : s.act step = some (.ok s')) : ∃ full' free' m, m < n ∧ s'.Ranks full' free' calls m := by
  obtain ⟨keeps, journal, idle, rank⟩ := ranks
  obtain ⟨_, full', free', same, follows⟩ := keeps.act taken
  cases same
  have harmless : s.Harmless step := by
    cases step with
    | append producer => exact onward
    | enter | unthrottle | check | persist | clear =>
      intro _ _ _ same
      cases same
  obtain ⟨records, accepted, moved⟩ := follows.journal harmless
  have journal' : s'.persisted ++ s'.pending (full' ++ free') = s'.accepted.flatten := by
    rw [moved, journal, accepted, List.flatten_append]
  have within := follows.keeps.behind_le
  -- It is enough that the sums go down by more than the consumer has gone on.
  suffices spends : (∀ producer ∉ calls, s'.producers producer = .idle) ∧
      3 * s'.log.written (full' ++ free') + ∑ producer ∈ calls, (s'.producers producer).due + s.consumer.behind <
        3 * s.log.written (full ++ free) + ∑ producer ∈ calls, (s.producers producer).due + s'.consumer.behind by
    refine ⟨full', free', 3 * s'.log.written (full' ++ free') + ∑ producer ∈ calls, (s'.producers producer).due -
      s'.consumer.behind, by omega, follows.keeps, journal', spends.1, by omega⟩
  have shape' := follows.keeps.shape
  cases step with
  | enter producer curSec logLine => exact onward.elim
  | unthrottle producer =>
    simp only [act] at taken
    split at taken
    · rename_i curSec logLine passed
      cases taken
      obtain ⟨member, spent⟩ := due_setProducer idle passed Producer.noConfusion (.locking curSec logLine)
      refine ⟨setProducer_idle idle member _, ?_⟩
      have cells : full' ++ free' = full ++ free := shape'.links.ring.unique keeps.shape.unthrottle.links.ring
      rw [cells]
      change 3 * s.log.written (full ++ free) +
        ∑ other ∈ calls, (Function.update s.producers producer (.locking curSec logLine) other).due +
          s.consumer.behind < _ +
          s.consumer.behind
      simp only [Producer.due] at spent ⊢
      omega
    · cases taken
  | append producer =>
    simp only [act] at taken
    split at taken
    · rename_i curSec logLine locking
      have fits := keeps.fits producer
      rw [locking] at fits
      obtain ⟨⟨log, accepts⟩, done, rest⟩ := bind_eq_ok.mp (Option.some.inj taken)
      cases rest
      obtain ⟨member, spent⟩ := due_setProducer idle locking Producer.noConfusion .idle
      have more := keeps.shape.appendLocked_written fits done shape'
      refine ⟨setProducer_idle idle member _, ?_⟩
      change 3 * log.written (full' ++ free') +
        ∑ other ∈ calls, (Function.update s.producers producer .idle other).due + s.consumer.behind < _ +
          s.consumer.behind
      simp only [Producer.due] at spent ⊢
      omega
    · cases taken
  | check =>
    simp only [act] at taken
    split at taken
    · rename_i checking
      obtain ⟨⟨log, go⟩, done, rest⟩ := bind_eq_ok.mp (Option.some.inj taken)
      cases rest
      obtain ⟨rfl, same⟩ := keeps.shape.checkLocked_written onward done shape'
      refine ⟨idle, ?_⟩
      simp only [checking, if_true, Consumer.behind]
      omega
    · cases taken
  | persist opened =>
    obtain rfl : opened = true := onward
    simp only [act] at taken
    split at taken
    · rename_i persisting
      cases taken
      have cells : full' ++ free' = full ++ free := shape'.links.ring.unique keeps.shape.links.ring
      refine ⟨idle, ?_⟩
      rw [cells, persisting]
      exact Nat.lt_succ_self _
    · cases taken
  | clear =>
    simp only [act] at taken
    split at taken
    · rename_i clearing
      obtain ⟨first, rest, rfl⟩ :=
        List.exists_cons_of_ne_nil (keeps.busy (by rw [clearing]; exact Consumer.noConfusion))
      obtain ⟨log, done, same⟩ := bind_eq_ok.mp (Option.some.inj taken)
      cases same
      have fewer := keeps.shape.clearLocked_written done shape'
      refine ⟨idle, ?_⟩
      simp only [clearing, Consumer.behind]
      omega
    · cases taken

section Rest

variable (rest : ∀ step, s.GoesOn step → s.act step = none)
include rest

theorem consumer_checking : s.consumer = .checking := by
  cases consumer : s.consumer with
  | checking => rfl
  | persisting =>
    have stuck := rest (.persist true) rfl
    simp only [LogState.act, consumer, if_true] at stuck
    cases stuck
  | clearing =>
    have stuck := rest .clear trivial
    simp only [LogState.act, consumer, if_true] at stuck
    cases stuck

/-- The consumer has found nothing more to do. -/
theorem Keeps.nothing_full (keeps : s.Keeps full free) : full = [] ∧ (s.log.cell s.log.prstBuf).aData = [] := by
  have empty : (s.log.cell s.log.prstBuf).aData = [] := by
    apply Classical.byContradiction
    intro held
    have stuck := rest .check held
    simp only [LogState.act, consumer_checking rest, if_true] at stuck
    cases stuck
  refine ⟨?_, empty⟩
  cases full with
  | nil => rfl
  | cons first full =>
    have start : first = s.log.prstBuf := Option.some.inj keeps.shape.links.ring.head
    exact absurd (start ▸ empty) (keeps.shape.marks.isFull first (by simp)).2

theorem Ranks.drained (ranks : s.Ranks full free calls n) : s.Drained := by
  obtain ⟨keeps, journal, idle, _⟩ := ranks
  have consumer := consumer_checking rest
  obtain ⟨rfl, empty⟩ := keeps.nothing_full rest
  have shape := keeps.shape
  have ring := shape.links.ring
  rw [List.nil_append] at ring
  obtain ⟨behind, rfl⟩ := ring.eq_cons
  have pointers : s.log.curBuf = s.log.prstBuf := (Option.some.inj shape.cur).symm
  have cells : ∀ cell ∈ s.log.prstBuf :: behind, (s.log.cell cell).status = .free ∧ (s.log.cell cell).aData = [] := by
    intro cell member
    refine ⟨shape.marks.isFree cell member, ?_⟩
    rcases List.mem_cons.mp member with rfl | later
    · exact empty
    · exact shape.marks.empty cell later
  refine ⟨?_, fun producer => ?_, consumer, pointers, _, ring, cells⟩
  · rw [pending, consumer, if_neg Consumer.noConfusion, List.nil_append,
      CRingLog.contents_empty fun cell member => (cells cell member).2, List.append_nil] at journal
    exact journal
  · cases state : s.producers producer with
    | idle => rfl
    | passed curSec logLine =>
      have stuck := rest (.unthrottle producer) trivial
      simp only [LogState.act, state] at stuck
      cases stuck
    | locking curSec logLine =>
      -- With no full cell in the ring the section does not reach the limit.
      have harmless : s.Harmless (.append producer) := by
        rintro _ _ _ _ _ ⟨⟨_, _, ⟨nextBuf, next, isFull⟩, _⟩, _⟩
        have around : s.log.Links ([] ++ s.log.prstBuf :: behind) := shape.links
        rw [pointers, around.next_eq] at next
        have member : nextBuf ∈ s.log.prstBuf :: behind := by
          have found := List.mem_of_mem_head? next
          simpa [or_comm] using found
        rw [(cells nextBuf member).1] at isFull
        cases isFull
      have stuck := rest (.append producer) harmless
      simp only [LogState.act, state] at stuck
      cases stuck

end Rest

/-- A step concerns one producer at most. -/
theorem act_producers (taken : s.act step = some (.ok s')) :
    ∃ producer, ∀ other, other ≠ producer → s'.producers other = s.producers other := by
  have moved (producer : Nat) (state : Producer) (other : Nat) (differ : other ≠ producer) :
      Function.update s.producers producer state other = s.producers other := Function.update_of_ne differ ..
  cases step with
  | enter producer curSec logLine =>
    refine ⟨producer, ?_⟩
    simp only [act] at taken
    split at taken
    · split at taken
      · cases taken
        exact fun _ _ => rfl
      · cases taken
        exact moved producer _
    · cases taken
  | unthrottle producer =>
    refine ⟨producer, ?_⟩
    simp only [act] at taken
    split at taken
    · cases taken
      exact moved producer _
    · cases taken
  | append producer =>
    refine ⟨producer, ?_⟩
    simp only [act] at taken
    split at taken
    · obtain ⟨_, _, rest⟩ := bind_eq_ok.mp (Option.some.inj taken)
      cases rest
      exact moved producer _
    · cases taken
  | check =>
    refine ⟨0, fun _ _ => ?_⟩
    simp only [act] at taken
    split at taken
    · obtain ⟨_, _, rest⟩ := bind_eq_ok.mp (Option.some.inj taken)
      cases rest
      rfl
    · cases taken
  | persist opened =>
    refine ⟨0, fun _ _ => ?_⟩
    simp only [act] at taken
    split at taken
    · split at taken <;> cases taken <;> rfl
    · cases taken
  | clear =>
    refine ⟨0, fun _ _ => ?_⟩
    simp only [act] at taken
    split at taken
    · obtain ⟨_, _, rest⟩ := bind_eq_ok.mp (Option.some.inj taken)
      cases rest
      rfl
    · cases taken

/-- Only finitely many producers have begun a call. -/
theorem reachable_begun (reachable : (logSystem initial).Reachable allowed s) :
    ∃ begun : Finset Nat, ∀ producer ∉ begun, s.producers producer = .idle := by
  refine reachable.invariant (fun s => ∃ begun : Finset Nat, ∀ producer ∉ begun, s.producers producer = .idle) ?_ ?_
  · rintro s ⟨log, _, rfl⟩
    exact ⟨∅, fun _ _ => rfl⟩
  · rintro s step s' ⟨begun, idle⟩ _ taken
    obtain ⟨producer, others⟩ := act_producers taken
    refine ⟨insert producer begun, fun other apart => ?_⟩
    rw [Finset.mem_insert, not_or] at apart
    rw [others other apart.1]
    exact idle other apart.2

/-- The producers whose calls are under way. -/
theorem reachable_calls (reachable : (logSystem initial).Reachable allowed s) :
    ∃ calls : Finset Nat, ∀ producer, producer ∈ calls ↔ s.producers producer ≠ .idle := by
  obtain ⟨begun, idle⟩ := reachable_begun reachable
  refine ⟨begun.filter fun producer => s.producers producer ≠ .idle, fun producer => ?_⟩
  rw [Finset.mem_filter, and_iff_right_iff_imp]
  intro busy
  apply Classical.byContradiction
  intro apart
  exact busy (idle producer apart)

theorem due_le (s : LogState) (calls : Finset Nat) :
    ∑ producer ∈ calls, (s.producers producer).due ≤ 5 * calls.card := by
  have each : ∀ producer ∈ calls, (s.producers producer).due ≤ 5 := by
    intro producer _
    cases s.producers producer <;> simp [Producer.due]
  have all := Finset.sum_le_card_nsmul calls _ 5 each
  rw [nsmul_eq_mul, Nat.cast_id] at all
  omega

end LogState

/-- From every state of such a run, whatever the scheduler does: when no more records come, the log comes to
rest, and then all that was accepted is in the file. -/
theorem drains_of_reachable (reachable : (logSystem CRingLog.Started).Reachable LogState.Harmless s) :
    ∃ cells, ∃ calls : Finset Nat, Circular (fun cell => (s.log.cell cell).next) s.log.prstBuf cells ∧
      (∀ producer, producer ∈ calls ↔ s.producers producer ≠ .idle) ∧
      ((logSystem CRingLog.Started).only LogState.GoesOn).Settles s
        (3 * cells.length + 5 * calls.card) LogState.Drained := by
  obtain ⟨full, free, keeps, journal⟩ := LogState.reachable_journal reachable
  obtain ⟨calls, busy⟩ := LogState.reachable_calls reachable
  have idle (producer : Nat) (apart : producer ∉ calls) : s.producers producer = .idle :=
    not_not.mp (mt (busy producer).mpr apart)
  have winds : ((logSystem CRingLog.Started).only LogState.GoesOn).Winds
      fun s n => ∃ full free, s.Ranks full free calls n := by
    rintro s step s' n ⟨full, free, ranks⟩ ⟨onward, taken⟩
    obtain ⟨full', free', m, less, left⟩ := ranks.spends onward taken
    exact ⟨m, less, full', free', left⟩
  have within := keeps.behind_le
  have cells : s.log.written (full ++ free) ≤ (full ++ free).length := List.countP_le_length
  have due := s.due_le calls
  have ranks : s.Ranks full free calls (3 * s.log.written (full ++ free) +
      ∑ producer ∈ calls, (s.producers producer).due - s.consumer.behind) := ⟨keeps, journal, idle, by omega⟩
  refine ⟨full ++ free, calls, keeps.shape.links.ring, busy, (winds.settles ?_ ⟨full, free, ranks⟩).weaken (by omega)⟩
  rintro s n ⟨full, free, ranks⟩ rest
  refine ranks.drained fun step onward => ?_
  cases result : s.act step with
  | none => rfl
  | some outcome =>
    obtain ⟨s', _, _, rfl, _⟩ := ranks.keeps.act result
    exact absurd ⟨onward, result⟩ (rest step s')

/-- The ring has grown to 101 cells, all of them full but the one that is written out. -/
theorem overflowed_drains :
    ∃ log s, CRingLog.create .empty none 0 (30 * 1024 * 1024) .succeeds .succeeds .succeeds = .ok (some log) ∧
      (logSystem CRingLog.Started).Run (.start log) overflowSteps s ∧
      ∃ cells, ∃ calls : Finset Nat, Circular (fun cell => (s.log.cell cell).next) s.log.prstBuf cells ∧
        (∀ producer, producer ∈ calls ↔ s.producers producer ≠ .idle) ∧
        ((logSystem CRingLog.Started).only LogState.GoesOn).Settles s (3 * cells.length + 5 * calls.card)
          LogState.Drained := by
  obtain ⟨log, s, done, run, _, reachable⟩ := LogState.overflowed_harmless
  exact ⟨log, s, done, run, drains_of_reachable reachable⟩

end WSlyh.Log
