import WSlyh.Lib.Ledger
import WSlyh.Log.NoLoss
import WSlyh.Log.Recovery

/-! What the recovery tool finds when the process ends: the records that are accepted and not
yet cleared, in the order in which they were accepted. -/

namespace WSlyh.Log

open Libc Lib

/-- `held` are the accepted records whose cell has not been cleared since, each with its cell. -/
structure Holding where
  state : LogState
  held : List (CellPtr × Bytes)

/-- `Append` writes to the cell at `m_pCurBuf`, and the cell at `m_pPrstBuf` is cleared. -/
def Holding.after (s : Holding) (step : LogStep) (state' : LogState) : List (CellPtr × Bytes) :=
  match step with
  | .append _ => s.held ++ (state'.accepted.drop s.state.accepted.length).map (Prod.mk state'.log.curBuf)
  | .clear => s.held.filter (·.1 ≠ s.state.log.prstBuf)
  | _ => s.held

def holdingSystem (start : CRingLog → Prop) : System Holding LogStep where
  init s := ∃ log, start log ∧ s = ⟨.start log, []⟩
  step s step s' := s.state.act step = some (.ok s'.state) ∧ s'.held = s.after step s'.state

/-- The records that the cells hold. A free cell that is not in use has none. -/
structure CRingLog.Files (log : CRingLog) (cells : List CellPtr) (records : CellPtr → List Bytes) : Prop where
  data : ∀ cell ∈ cells, (log.cell cell).aData = (records cell).flatten
  idle : ∀ cell ∈ cells, (log.cell cell).status = .free → cell ≠ log.curBuf → records cell = []

namespace CRingLog

variable {log log' : CRingLog} {full free rest full' free' cells : List CellPtr} {records : CellPtr → List Bytes}
  {curSec : Nat} {logLine : Bytes}

/-- Behind `m_pCurBuf` there are no records. -/
theorem Files.behind (files : log.Files (full ++ log.curBuf :: rest) records)
    (shape : log.Shape full (log.curBuf :: rest)) : ∀ cell ∈ rest, records cell = [] := by
  intro cell member
  apply files.idle cell
  · simp [member]
  · exact shape.marks.isFree cell (List.mem_cons_of_mem _ member)
  · rintro rfl
    have nodup := shape.links.ring.nodup
    rw [List.nodup_middle, List.nodup_cons] at nodup
    exact nodup.1 (List.mem_append_right _ member)

theorem Files.append (files : log.Files (full ++ log.curBuf :: rest) records)
    (shape : log.Shape full (log.curBuf :: rest)) (room : logLine.length ≤ (log.cell log.curBuf).getFreeLen) :
    (log.modify log.curBuf (·.append logLine)).Files (full ++ log.curBuf :: rest)
      (Function.update records log.curBuf (records log.curBuf ++ [logLine])) := by
  constructor
  · intro cell member
    by_cases here : cell = log.curBuf
    · subst here
      rw [cell_modify_self, append_aData room, files.data _ member, Function.update_self]
      simp
    · rw [Function.update_of_ne here, ← files.data cell member]
      have differ : cell.shmId ≠ log.curBuf.shmId := by
        apply shape.links.differ
        simpa [here] using member
      rw [cell_modify_other differ]
  · intro cell member status apart
    have apart' : cell ≠ log.curBuf := apart
    rw [Function.update_of_ne apart']
    apply files.idle cell member _ apart'
    rw [cell_modify] at status
    split at status
    · rw [← append_status _ logLine]
      exact status
    · exact status

/-- The cell that has been filled keeps its records, and those behind it have none. -/
theorem Files.moved (files : log.Files (full ++ log.curBuf :: rest) records)
    (moved : (log.modify log.curBuf setFull).Moved full rest curSec log' free') :
    log'.Files (full ++ [log.curBuf] ++ free') fun cell =>
      if cell ∈ full ++ [log.curBuf] then records cell else [] := by
  have nodup := moved.shape.links.ring.nodup
  have apart (cell : CellPtr) (member : cell ∈ free') : cell ∉ full ++ [log.curBuf] := fun old =>
    List.disjoint_of_nodup_append nodup old member
  constructor
  · intro cell member
    by_cases old : cell ∈ full ++ [log.curBuf]
    · have known : cell ∈ full ++ log.curBuf :: rest := by
        rcases List.mem_append.mp old with inFull | here
        · exact List.mem_append_left _ inFull
        · rw [List.mem_singleton.mp here]
          simp
      simp only [if_pos old]
      rw [moved.data cell old, data_setFull, files.data cell known]
    · have new : cell ∈ free' := (List.mem_append.mp member).resolve_left old
      simp only [if_neg old]
      exact moved.empty cell new
  · intro cell member status _
    rcases List.mem_append.mp member with old | new
    · rw [(moved.shape.marks.isFull cell old).1] at status
      cases status
    · exact if_neg (apart cell new)

theorem Files.ledger_moved (files : log.Files (full ++ log.curBuf :: rest) records)
    (shape : log.Shape full (log.curBuf :: rest))
    (moved : (log.modify log.curBuf setFull).Moved full rest curSec log' free') :
    ledger (fun cell => if cell ∈ full ++ [log.curBuf] then records cell else []) (full ++ [log.curBuf] ++ free') =
      ledger records (full ++ log.curBuf :: rest) := by
  have nodup := moved.shape.links.ring.nodup
  have old : ledger (fun cell => if cell ∈ full ++ [log.curBuf] then records cell else []) (full ++ [log.curBuf]) =
      ledger records (full ++ [log.curBuf]) := ledger_congr fun cell member => if_pos member
  have new : ledger (fun cell => if cell ∈ full ++ [log.curBuf] then records cell else []) free' = [] :=
    ledger_empty fun cell member => if_neg fun inOld => List.disjoint_of_nodup_append nodup inOld member
  have behind : ledger records rest = [] := ledger_empty (files.behind shape)
  rw [ledger_append, old, new, ledger_append, ledger_append, ledger_cons, ledger_cons, behind, ledger_nil]
  simp

/-- The bytes of the cells are those of the records, in the order of the ledger. -/
theorem Files.contents (files : log.Files cells records) :
    log.contents cells = ((ledger records cells).map Prod.snd).flatten := by
  rw [ledger_values, CRingLog.contents, List.map_congr_left files.data]
  induction cells with
  | nil => rfl
  | cons cell cells ih =>
    have rest : log.Files cells records :=
      ⟨fun other member => files.data other (by simp [member]),
        fun other member => files.idle other (by simp [member])⟩
    rw [List.map_cons, List.flatten_cons, ih rest, List.flatMap_cons, List.flatten_append]

theorem Shape.files_appendLocked (shape : log.Shape full free) (fits : logLine.length ≤ log.oneBuffLen)
    (harmless : ¬ (log.Overflows logLine ∧ curSec = 0)) (files : log.Files (full ++ free) records)
    (done : log.appendLocked curSec logLine .succeeds = .ok (log', accepted)) (shape' : log'.Shape full' free') :
    ∃ records', log'.Files (full' ++ free') records' ∧
      ledger records' (full' ++ free') =
        ledger records (full ++ free) ++ (if accepted then [(log'.curBuf, logLine)] else []) := by
  rw [appendLocked_eq] at done
  rcases shape.seekCell fits curSec with
    ⟨rest, rfl, room, seeks⟩ | ⟨_, seeks⟩ | ⟨rest, log₁, free₁, rfl, narrow, moves, seeks, moved⟩
  · rw [seeks] at done
    cases done
    rw [shape'.links.ring.unique (shape.append logLine).links.ring]
    refine ⟨_, files.append shape room, ?_⟩
    exact ledger_push shape.links.ring.nodup (files.behind shape) logLine
  · rw [seeks] at done
    cases done
    have same : { log with lastLogFailTime := curSec }.Shape full free :=
      ⟨shape.links.point _ _, shape.marks.point _ _, shape.cur⟩
    rw [shape'.links.ring.unique same.links.ring]
    exact ⟨records, ⟨files.data, files.idle⟩, by simp⟩
  · have files₁ := files.moved moved
    have kept := files.ledger_moved shape moved
    rw [seeks] at done
    cases done
    by_cases quiet : log₁.lastLogFailTime = 0
    · rw [if_pos (beq_iff_eq.mpr quiet)] at shape' ⊢
      rw [if_pos (beq_iff_eq.mpr quiet), ← kept]
      have found : free₁ ≠ [] := by
        rcases moved.outcome with ⟨found, _⟩ | ⟨_, time, rfl, limit⟩
        · exact found
        · have isFree := shape.marks.isFree log.curBuf (by simp)
          exact absurd ⟨shape.overflows isFree narrow limit, time.symm.trans quiet⟩ harmless
      obtain ⟨first, tail, rfl⟩ := List.exists_cons_of_ne_nil found
      have cur : first = log₁.curBuf := Option.some.inj moved.shape.cur
      subst cur
      have room : logLine.length ≤ (log₁.cell log₁.curBuf).getFreeLen := by
        rw [moved.room]
        exact fits
      rw [shape'.links.ring.unique (moved.shape.append logLine).links.ring]
      refine ⟨_, files₁.append moved.shape room, ?_⟩
      exact ledger_push moved.shape.links.ring.nodup (files₁.behind moved.shape) logLine
    · have refused : ¬ (log₁.lastLogFailTime == 0) = true := by simpa using quiet
      rw [if_neg refused] at shape' ⊢
      rw [if_neg refused, shape'.links.ring.unique moved.shape.links.ring, List.append_nil]
      exact ⟨_, files₁, kept⟩

theorem Shape.files_checkLocked (shape : log.Shape full free) (files : log.Files (full ++ free) records)
    (done : log.checkLocked = .ok (log', go)) (shape' : log'.Shape full' free') :
    log'.Files (full' ++ free') records := by
  obtain ⟨log₁, go₁, full₁, free₁, done₁, shape₁, cells, data, _⟩ := shape.checkLocked
  cases done₁.symm.trans done
  rw [shape'.links.ring.unique shape₁.links.ring, cells]
  constructor
  · intro cell member
    rw [data cell]
    exact files.data cell member
  · intro cell member status apart
    unfold CRingLog.checkLocked at done
    split at done
    · cases done
      exact files.idle cell member status apart
    · split at done
      · split at done
        · cases done
        · dsimp only at done
          split at done
          · cases done
          · cases done
            have marked : ((log.modify log.curBuf setFull).cell cell).status = .free := status
            rw [cell_modify] at marked
            split at marked
            · cases marked
            · rename_i differ
              exact files.idle cell member marked fun same => differ (congrArg _ same)
      · cases done
        exact files.idle cell member status apart

theorem Shape.files_clearLocked (shape : log.Shape (first :: full) free)
    (files : log.Files (first :: full ++ free) records) (done : log.clearLocked = .ok log')
    (shape' : log'.Shape full' free') :
    ∃ records', log'.Files (full' ++ free') records' ∧
      ledger records' (full' ++ free') = (ledger records (first :: full ++ free)).filter (·.1 ≠ log.prstBuf) := by
  have start : first = log.prstBuf := Option.some.inj shape.links.ring.head
  subst start
  obtain ⟨_, cur, frame⟩ := clearLocked_frame done
  obtain ⟨_, made, turned, _⟩ := shape.clearLocked
  cases made.symm.trans done
  have links : log.Links ([] ++ log.prstBuf :: (full ++ free)) := shape.links
  have fresh : log.prstBuf ∉ full ++ free := (List.nodup_cons.mp links.ring.nodup).1
  have others (cell : CellPtr) (member : cell ∈ full ++ free) : log'.cell cell = log.cell cell := by
    rw [frame]
    exact cell_modify_other (links.differ member) _
  have apart (cell : CellPtr) (member : cell ∈ full ++ free) : cell ≠ log.prstBuf := by
    rintro rfl
    exact fresh member
  rw [shape'.links.ring.unique turned.links.ring, ← List.append_assoc]
  refine ⟨Function.update records log.prstBuf [], ⟨fun cell member => ?_, fun cell member status differ => ?_⟩, ?_⟩
  · rcases List.mem_append.mp member with old | cleared
    · rw [others cell old, Function.update_of_ne (apart cell old)]
      exact files.data cell (List.mem_cons_of_mem _ old)
    · rw [List.mem_singleton.mp cleared, frame, cell_modify_self, Function.update_self]
      rfl
  · rcases List.mem_append.mp member with old | cleared
    · rw [Function.update_of_ne (apart cell old)]
      rw [others cell old] at status
      rw [cur] at differ
      exact files.idle cell (List.mem_cons_of_mem _ old) status differ
    · rw [List.mem_singleton.mp cleared, Function.update_self]
  · have strike : (ledger records (log.prstBuf :: (full ++ free))).filter (·.1 ≠ log.prstBuf) =
        ledger records (full ++ free) := ledger_strike fresh
    rw [List.cons_append, strike, ledger_append, ledger_cons, Function.update_self,
      ledger_congr fun cell member => Function.update_of_ne (apart cell member) _ _]
    simp

end CRingLog

/-- What the runs keep in which no producer meets the memory limit in second 0: the ids name
the ring, and the records that are held are those in the cells, from `m_pPrstBuf` on. -/
structure Holding.Keeps (s : Holding) (full free : List CellPtr) (records : CellPtr → List Bytes) : Prop where
  keeps : s.state.Keeps full free
  named : s.state.log.Named (full ++ free)
  files : s.state.log.Files (full ++ free) records
  held : s.held = ledger records (full ++ free)

namespace Holding

variable {s s' : Holding} {step : LogStep} {full free : List CellPtr} {records : CellPtr → List Bytes}

theorem Keeps.act (keeps : s.Keeps full free records) (harmless : s.state.Harmless step)
    (taken : s.state.act step = some (.ok s'.state)) (held : s'.held = s.after step s'.state) :
    ∃ full' free' records', s'.Keeps full' free' records' := by
  obtain ⟨next, full', free', same, follows⟩ := keeps.keeps.act taken
  cases same
  have named := (keeps.keeps.carries keeps.named taken follows.keeps).named
  have shape := keeps.keeps.shape
  have shape' := follows.keeps.shape
  suffices found : ∃ records', s'.state.log.Files (full' ++ free') records' ∧
      s.after step s'.state = ledger records' (full' ++ free') by
    obtain ⟨records', files, same⟩ := found
    exact ⟨full', free', records', follows.keeps, named, files, held.trans same⟩
  have unchanged (log : s'.state.log.cell = s.state.log.cell) (prstBuf : s'.state.log.prstBuf = s.state.log.prstBuf)
      (curBuf : s'.state.log.curBuf = s.state.log.curBuf) (after : s.after step s'.state = s.held) :
      ∃ records', s'.state.log.Files (full' ++ free') records' ∧
        s.after step s'.state = ledger records' (full' ++ free') := by
    have ring : Circular (fun cell => (s'.state.log.cell cell).next) s'.state.log.prstBuf (full ++ free) := by
      rw [log, prstBuf]
      exact shape.links.ring
    rw [shape'.links.ring.unique ring]
    refine ⟨records, ⟨?_, ?_⟩, after.trans keeps.held⟩
    · rw [log]
      exact keeps.files.data
    · rw [log, curBuf]
      exact keeps.files.idle
  cases step with
  | enter producer curSec logLine =>
    simp only [LogState.act] at taken
    split at taken
    · split at taken
      · rw [← Except.ok.inj (Option.some.inj taken)] at unchanged ⊢
        exact unchanged rfl rfl rfl rfl
      · rw [← Except.ok.inj (Option.some.inj taken)] at unchanged ⊢
        exact unchanged rfl rfl rfl rfl
    · cases taken
  | unthrottle producer =>
    simp only [LogState.act] at taken
    split at taken
    · rw [← Except.ok.inj (Option.some.inj taken)] at unchanged ⊢
      exact unchanged rfl rfl rfl rfl
    · cases taken
  | append producer =>
    simp only [LogState.act] at taken
    split at taken
    · rename_i curSec logLine locking
      have fits := keeps.keeps.fits producer
      rw [locking] at fits
      obtain ⟨⟨log', accepted⟩, done, rest⟩ := bind_eq_ok.mp (Option.some.inj taken)
      have result := Except.ok.inj rest
      rw [← result] at shape' ⊢
      obtain ⟨records', files, filed⟩ := shape.files_appendLocked fits (harmless producer curSec logLine rfl locking)
        keeps.files done shape'
      refine ⟨records', files, ?_⟩
      rw [filed, ← keeps.held]
      cases accepted <;> simp [after, LogState.setProducer]
    · cases taken
  | check =>
    simp only [LogState.act] at taken
    split at taken
    · obtain ⟨⟨log', go⟩, done, rest⟩ := bind_eq_ok.mp (Option.some.inj taken)
      rw [← Except.ok.inj rest] at shape' ⊢
      have files := shape.files_checkLocked keeps.files done shape'
      obtain ⟨_, _, full₁, free₁, made, shape₁, cells, _⟩ := shape.checkLocked
      cases made.symm.trans done
      refine ⟨records, files, ?_⟩
      rw [shape'.links.ring.unique shape₁.links.ring, cells]
      exact keeps.held
    · cases taken
  | persist opened =>
    simp only [LogState.act] at taken
    split at taken
    · split at taken
      · rw [← Except.ok.inj (Option.some.inj taken)] at unchanged ⊢
        exact unchanged rfl rfl rfl rfl
      · rw [← Except.ok.inj (Option.some.inj taken)] at unchanged ⊢
        exact unchanged rfl rfl rfl rfl
    · cases taken
  | clear =>
    simp only [LogState.act] at taken
    split at taken
    · rename_i clearing
      obtain ⟨first, rest, rfl⟩ := List.exists_cons_of_ne_nil (keeps.keeps.busy (by simp [clearing]))
      obtain ⟨log', done, result⟩ := bind_eq_ok.mp (Option.some.inj taken)
      rw [← Except.ok.inj result] at shape' ⊢
      obtain ⟨records', files, filed⟩ := shape.files_clearLocked keeps.files done shape'
      refine ⟨records', files, ?_⟩
      rw [filed, ← keeps.held]
      rfl
    · cases taken

/-- A step adds to the accepted records at most; only a clear takes away from the held ones. -/
theorem after_values (held : s.held.map Prod.snd = s.state.accepted) (remains : step ≠ .clear)
    (taken : s.state.act step = some (.ok state')) : (s.after step state').map Prod.snd = state'.accepted := by
  cases step with
  | enter producer curSec logLine =>
    simp only [LogState.act] at taken
    split at taken
    · split at taken <;> cases taken <;> exact held
    · cases taken
  | unthrottle producer =>
    simp only [LogState.act] at taken
    split at taken <;> cases taken
    exact held
  | append producer =>
    simp only [LogState.act] at taken
    split at taken
    · obtain ⟨⟨log', accepted⟩, _, rest⟩ := bind_eq_ok.mp (Option.some.inj taken)
      cases rest
      cases accepted <;> simp [after, LogState.setProducer, held]
    · cases taken
  | check =>
    simp only [LogState.act] at taken
    split at taken
    · obtain ⟨⟨log', go⟩, _, rest⟩ := bind_eq_ok.mp (Option.some.inj taken)
      cases rest
      exact held
    · cases taken
  | persist opened =>
    simp only [LogState.act] at taken
    split at taken
    · split at taken <;> cases taken <;> exact held
    · cases taken
  | clear => exact absurd rfl remains

/-- Until something is cleared, the accepted records are all held. -/
theorem run_values {steps : List LogStep} {state' : LogState} (initial : CRingLog → Prop)
    (run : (logSystem initial).Run s.state steps state') (remain : ∀ step ∈ steps, step ≠ .clear)
    (held : s.held.map Prod.snd = s.state.accepted) :
    ∃ s', (holdingSystem initial).Run s steps s' ∧ s'.state = state' ∧ s'.held.map Prod.snd = state'.accepted := by
  induction steps generalizing s with
  | nil => exact ⟨s, rfl, run, by rw [← run]; exact held⟩
  | cons step steps ih =>
    obtain ⟨between, taken, rest⟩ := run
    have values := after_values held (remain step (by simp)) taken
    obtain ⟨s', run', result⟩ := ih (s := ⟨between, s.after step between⟩) rest
      (fun other member => remain other (by simp [member])) values
    exact ⟨s', ⟨⟨between, s.after step between⟩, ⟨taken, rfl⟩, run'⟩, result⟩

theorem reachable_keeps
    (reachable : (holdingSystem CRingLog.Constructed).Reachable (fun s step => s.state.Harmless step) s) :
    ∃ full free records, s.Keeps full free records := by
  refine reachable.invariant (fun s => ∃ full free records, s.Keeps full free records) ?_ ?_
  · rintro s ⟨log, constructed, rfl⟩
    obtain ⟨cells, shape, contents, named⟩ := constructed.named
    refine ⟨[], cells, fun _ => [], LogState.keeps_start shape, named, ⟨fun cell member => ?_, fun _ _ _ _ => rfl⟩,
      (ledger_empty fun _ _ => rfl).symm⟩
    exact CRingLog.aData_of_contents contents member
  · rintro s step s' ⟨full, free, records, keeps⟩ harmless ⟨taken, held⟩
    exact keeps.act harmless taken held

end Holding

/-- The tool has written the held records, in order, and nothing else; with `-d` it has removed
each segment of the ring once, and the index segment. -/
structure Holding.Recovered (s : Holding) (isDel : Bool) (r : Recovery) : Prop where
  leaveLog : r.leaveLog.getD [] = (s.held.map Prod.snd).flatten
  attached : ∃ cells, Circular (fun cell => (s.state.log.cell cell).next) s.state.log.prstBuf cells ∧
    r.attached = cells.map CellPtr.shmId
  kept : isDel = false → r.removed = [] ∧ r.shm = s.state.log.shm ∧ r.index = some s.state.log.prstBCShmId
  removed : isDel = true → r.removed = r.attached ∧ r.removed.Nodup ∧ r.index = none ∧
    r.shm.segments = s.state.log.shm.segments.filter (·.2 ∉ r.removed)

/-- Wherever the process ends between two critical sections, the tool comes to an end and has
put out exactly what was pending. -/
theorem recovered_of_reachable
    (reachable : (holdingSystem CRingLog.Constructed).Reachable (fun s step => s.state.Harmless step) s)
    (isDel : Bool) :
    ∃ rounds r, s.state.log.shm.recover (some s.state.log.prstBCShmId) isDel rounds = .ok (some r) ∧
      s.Recovered isDel r := by
  obtain ⟨full, free, records, keeps⟩ := Holding.reachable_keeps reachable
  have links := keeps.keeps.shape.links
  have loop := keeps.named.loop links
  obtain ⟨r, done, leaveLog, attached, result⟩ := loop.recover isDel ((full ++ free).map CellPtr.shmId).length
  rw [if_pos le_rfl] at done
  refine ⟨_, r, done, ?_, ⟨_, links.ring, attached⟩, ?_, ?_⟩
  · rw [leaveLog, CRingLog.flatMap_ids, keeps.files.contents, keeps.held, Recovery.getD_written]
  · rintro rfl
    exact ⟨result.2.1, result.2.2, result.1⟩
  · rintro rfl
    obtain ⟨index, removed, segments⟩ := result
    refine ⟨removed.trans attached.symm, ?_, index, ?_⟩
    · rw [removed]
      exact loop.ring.nodup
    · rw [removed]
      exact segments

/-- One record is logged after the start. -/
theorem oneRecord_recovered :
    ∃ log s, CRingLog.create .empty none 0 (30 * 1024 * 1024) .succeeds .succeeds .succeeds = .ok (some log) ∧
      (holdingSystem CRingLog.Constructed).Run ⟨.start log, []⟩ [.enter 0 7 [65], .unthrottle 0, .append 0] s ∧
      s.held.map Prod.snd = [[65]] ∧
      ∃ rounds r, s.state.log.shm.recover (some s.state.log.prstBCShmId) true rounds = .ok (some r) ∧
        s.Recovered true r := by
  obtain ⟨log, done, size, _, _, _, head, _, _, built⟩ := CRingLog.construct_built .empty (30 * 1024 * 1024)
  have constructed : log.Constructed := ⟨.empty, none, 0, 30 * 1024 * 1024, done⟩
  have quiet : log.throttled 7 = false := by simp [CRingLog.throttled, built.lastLogFailTime]
  obtain ⟨_, isFree, empty, sized⟩ := built.head_cell
  have room : ([65] : Bytes).length ≤ (log.cell log.curBuf).getFreeLen := by
    rw [built.curBuf, CBufferCell.getFreeLen, CBufferCell.curLength, empty, sized, size]
    decide
  have append : log.appendLocked 7 [65] .succeeds = .ok (log.modify log.curBuf (·.append [65]), true) := by
    rw [CRingLog.appendLocked, if_pos ⟨by rw [built.curBuf, isFree], room⟩]
  have same : { log with lastLogFailTime := 0 } = log := by rw [← built.lastLogFailTime]
  have enters : (LogState.start log).act (.enter 0 7 [65]) =
      some (.ok ((LogState.start log).setProducer 0 (.passed 7 [65]))) := by
    simp [LogState.act, LogState.start, quiet, size]
  have resets : ((LogState.start log).setProducer 0 (.passed 7 [65])).act (.unthrottle 0) =
      some (.ok ((LogState.start log).setProducer 0 (.locking 7 [65]))) := by
    simp [LogState.act, LogState.setProducer, LogState.start, same]
  have appends : ((LogState.start log).setProducer 0 (.locking 7 [65])).act (.append 0) =
      some (.ok ({ LogState.start log with
        log := log.modify log.curBuf (·.append [65])
        accepted := [[65]] })) := by
    simp [LogState.act, LogState.setProducer, LogState.start, append, bind, Except.bind]
  have passes : (holdingSystem CRingLog.Constructed).Reachable (fun s step => s.state.Harmless step)
      ⟨(LogState.start log).setProducer 0 (.passed 7 [65]), []⟩ :=
    .step (a := .enter 0 7 [65]) (.init ⟨log, constructed, rfl⟩)
      (fun _ _ _ here => LogStep.noConfusion here) ⟨enters, rfl⟩
  have waits : (holdingSystem CRingLog.Constructed).Reachable (fun s step => s.state.Harmless step)
      ⟨(LogState.start log).setProducer 0 (.locking 7 [65]), []⟩ :=
    .step (a := .unthrottle 0) passes (fun _ _ _ here => LogStep.noConfusion here) ⟨resets, rfl⟩
  have harmless : ((LogState.start log).setProducer 0 (.locking 7 [65])).Harmless (.append 0) := by
    intro producer curSec logLine here locking
    cases here
    cases locking
    rintro ⟨_, zero⟩
    cases zero
  have logged : (holdingSystem CRingLog.Constructed).Reachable (fun s step => s.state.Harmless step)
      ⟨{ LogState.start log with
        log := log.modify log.curBuf (·.append [65])
        accepted := [[65]] }, [(log.curBuf, [65])]⟩ :=
    .step waits harmless ⟨appends, rfl⟩
  refine ⟨log, _, done, ?_, ?_, recovered_of_reachable logged true⟩
  · exact ⟨⟨(LogState.start log).setProducer 0 (.passed 7 [65]), []⟩, ⟨enters, rfl⟩,
      ⟨(LogState.start log).setProducer 0 (.locking 7 [65]), []⟩, ⟨resets, rfl⟩, _, ⟨appends, rfl⟩, rfl⟩
  · rfl

/-- At the memory limit in second 0 the tool finds one record less than there should be. -/
theorem second_zero_not_recovered :
    ∃ log s, CRingLog.create .empty none 0 (30 * 1024 * 1024) .succeeds .succeeds .succeeds = .ok (some log) ∧
      (holdingSystem CRingLog.Constructed).Run ⟨.start log, []⟩ (kilobyteSteps 0 3102721) s ∧
      ¬ ∃ isDel rounds r, s.state.log.shm.recover (some s.state.log.prstBCShmId) isDel rounds = .ok (some r) ∧
        s.Recovered isDel r := by
  obtain ⟨log, done, size, _, _, _, _, _, _, built⟩ := CRingLog.construct_built .empty (30 * 1024 * 1024)
  have constructed : log.Constructed := ⟨.empty, none, 0, 30 * 1024 * 1024, done⟩
  obtain ⟨state, cells, run, overfull⟩ := LogState.overfull_run CRingLog.Constructed built size
  have remain : ∀ step ∈ kilobyteSteps 0 3102721, step ≠ .clear := by
    rintro step member rfl
    simpa [sendSteps] using mem_kilobyteSteps member
  obtain ⟨s, lifted, same, values⟩ := Holding.run_values (s := ⟨.start log, []⟩) CRingLog.Constructed run remain rfl
  subst same
  refine ⟨log, s, done, lifted, ?_⟩
  rintro ⟨isDel, rounds, r, recovers, recovered⟩
  have initial : (logSystem CRingLog.Constructed).Reachable (fun _ _ => True) (.start log) :=
    .init ⟨log, constructed, rfl⟩
  obtain ⟨full', free', keeps, named⟩ := LogState.reachable_named (initial.run run)
  have ring := keeps.shape.links.ring.unique overfull.shape.links.ring
  rw [List.append_nil] at ring
  obtain ⟨r', recovers', leaveLog, _⟩ := (named.loop keeps.shape.links).recover isDel rounds
  have found : r = r' := by
    rw [recovers'] at recovers
    split at recovers <;> cases recovers
    rfl
  have written := recovered.leaveLog
  rw [found, leaveLog, CRingLog.flatMap_ids, Recovery.getD_written, values, ring] at written
  have short := overfull.short
  rw [written] at short
  exact absurd short (lt_irrefl _)

end WSlyh.Log
