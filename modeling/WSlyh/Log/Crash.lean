import WSlyh.Log.Execution
import WSlyh.Log.Filling
import WSlyh.Log.Growth

/-! The process may end between any two stores to shared memory. From the number in the index
segment the ids still lead once round the ring, unless it ends while the new cell of a growth
is named and does not name the next one yet. -/

namespace WSlyh.Log

open Libc Lib

/-- Had the process ended here: the tool and the next start meet segments only, come to an
end, and the tool meets every cell with a record that is not yet in the file. -/
structure Execution.Recoverable (e : Execution) : Prop where
  tool : ∀ isDel, ∃ rounds r, e.state.log.shm.recover (some e.state.log.prstBCShmId) isDel rounds = .ok (some r) ∧
    ∀ record ∈ e.unpersisted, record.1.shmId ∈ r.attached
  nextStart : ∃ rounds shm, e.state.log.shm.getPrstCBShmId (some e.state.log.prstBCShmId) rounds = .ok (some shm)

/-- `m_pCurBuf` names the new cell already, and the new cell still names no other. -/
def Inside.Dangling : Inside → Prop
  | .splicing _ _ _ done => 4 ≤ done ∧ done < 6
  | _ => False

/-- A walk that never comes by its head again, and leaves the segments, does not end well. -/
theorem Recovery.walk_astray {r r' : Recovery} {index curr astray : Int} {ids : List Int}
    (leads : Leads r.shm.nextId (curr :: ids) astray)
    (lost : r.shm.segments.any (·.2 == astray) = false) (fresh : index ∉ ids) (apart : index ≠ astray) (rounds : Nat) :
    walk false index rounds curr r ≠ .ok (some r') := by
  induction ids generalizing r curr rounds with
  | nil =>
    have next : (r.shm.cell curr).nextShmId = astray := Option.some.inj leads.1
    cases rounds with
    | zero =>
      intro ended
      cases ended
    | succ rounds =>
      rw [walk, next]
      split
      · simp only [if_neg apart]
        cases rounds with
        | zero =>
          intro ended
          cases ended
        | succ rounds =>
          have lost' : ¬ (r.visit false curr).shm.segments.any (·.2 == astray) = true := by
            rw [show (r.visit false curr).shm = r.shm from rfl, lost]
            exact Bool.false_ne_true
          rw [walk, if_neg lost']
          intro ended
          cases ended
      · intro ended
        cases ended
  | cons b ids ih =>
    have next : (r.shm.cell curr).nextShmId = b := Option.some.inj leads.1
    have onward : index ≠ b := fun same => fresh (by simp [same])
    cases rounds with
    | zero =>
      intro ended
      cases ended
    | succ rounds =>
      rw [walk, next]
      split
      · simp only [if_neg onward]
        exact ih (r := r.visit false curr) leads.2 lost (fun member => fresh (by simp [member])) rounds
      · intro ended
        cases ended

namespace Shm

variable {shm : Shm} {index shmId : Int} {ids : List Int}

/-- No segment has a negative id. -/
theorem not_any_of_neg (negative : shmId < 0) : shm.segments.any (·.2 == shmId) = false := by
  rw [List.any_eq_false]
  intro entry member same
  rw [beq_iff_eq] at same
  have := (shm.fresh entry member).1
  omega

theorem recover_astray {r : Recovery} (leads : Leads shm.nextId (index :: ids) (-1)) (fresh : index ∉ ids)
    (apart : index ≠ -1) (rounds : Nat) : shm.recover (some index) false rounds ≠ .ok (some r) := by
  intro recovers
  obtain ⟨outcome, walks, rest⟩ := bind_eq_ok.mp recovers
  cases outcome with
  | none => cases rest
  | some r' => exact Recovery.walk_astray leads (not_any_of_neg (by omega)) fresh apart rounds walks

theorem Loop.recoverable {e : Execution} (loop : e.state.log.shm.Loop e.state.log.prstBCShmId ids)
    (records : ∀ record ∈ e.unpersisted, record.1.shmId ∈ ids) : e.Recoverable := by
  constructor
  · intro isDel
    obtain ⟨r, walks, _, attached, _⟩ := loop.recover isDel ids.length
    rw [if_pos le_rfl] at walks
    exact ⟨ids.length, r, walks, by rwa [attached]⟩
  · exact ⟨ids.length, _, loop.getPrstCBShmId ids.length le_rfl⟩

end Shm

namespace CRingLog

variable {log : CRingLog} {shm : Shm} {full free cells : List CellPtr} {newBuffer nextBuf : CellPtr} {done : Nat}

theorem Shape.cur_mem (shape : log.Shape full free) : log.curBuf ∈ full ++ free := by
  cases free with
  | cons first rest =>
    have cur : first = log.curBuf := Option.some.inj shape.cur
    simp [cur]
  | nil =>
    have cur : log.prstBuf = log.curBuf := Option.some.inj shape.cur
    rw [← cur]
    exact List.mem_of_mem_head? shape.links.ring.head

/-- A ring that is to grow: `m_pCurBuf` is full now, it is the last cell of the ring, and the
cell behind it is `m_pPrstBuf`. -/
theorem Shape.filled_of_grows (shape : log.Shape full free) (grows : log.grows logLine = true)
    (next : (log.cell log.curBuf).next = some nextBuf) (fits : logLine.length ≤ log.oneBuffLen) :
    free = [log.curBuf] ∧ nextBuf = log.prstBuf ∧ (log.modify log.curBuf setFull).Filled full [] := by
  obtain ⟨isFree, narrow, isFull, _⟩ := (grows_iff next).mp grows
  obtain ⟨rest, rfl⟩ := shape.free_eq isFree
  have filled := shape.filled (shape.nonempty_of_narrow narrow fits)
  have next' : ((log.modify log.curBuf setFull).cell (log.modify log.curBuf setFull).curBuf).next = some nextBuf := by
    rw [show (log.modify log.curBuf setFull).curBuf = log.curBuf from rfl, cell_modify_self]
    exact next
  cases filled.rest_nil next' isFull
  exact ⟨rfl, Option.some.inj (next'.symm.trans filled.next_full.1), filled⟩

section Splicing

variable (filled : log.Filled full []) (named : log.Named (full ++ [log.curBuf]))
  (created : log.shm.Created (SHMKEY + log.buffCnt) log.oneBuffLen shm newBuffer)
include filled named created

/-- Before the new cell is named the ids lead round the old ring. -/
theorem Filled.loop_early (early : done < 4) :
    (shm.storeAll ((Shm.spliceStores log.curBuf newBuffer log.prstBuf).take done)).Loop log.prstBCShmId
      ((full ++ [log.curBuf]).map CellPtr.shmId) := by
  constructor
  · apply named.ring.congr
    intro shmId member
    obtain ⟨cell, inRing, rfl⟩ := List.mem_map.mp member
    have kept := congrArg CBufferCell.nextShmId (created.frame cell (filled.links.created_fresh created inRing))
    rw [Shm.nextId, Shm.splice_early _ _ early]
    exact congrArg some kept
  · rw [(shm.splice_keeps done).1]
    exact filled.links.segments_of_known created.known

/-- Once it names the next cell they lead round the new ring. -/
theorem Filled.loop_late (late : 6 ≤ done) (bound : done ≤ 8) :
    (shm.storeAll ((Shm.spliceStores log.curBuf newBuffer log.prstBuf).take done)).Loop log.prstBCShmId
      ((full ++ [log.curBuf] ++ [newBuffer]).map CellPtr.shmId) := by
  have fresh (cell : CellPtr) (member : cell ∈ full ++ [log.curBuf]) := filled.links.created_fresh created member
  have new : (shm.deref newBuffer).shmId = newBuffer.shmId := congrArg CBufferCell.shmId created.deref
  have grown : log.GrownIds log.prstBuf { log with
      shm := shm.storeAll ((Shm.spliceStores log.curBuf newBuffer log.prstBuf).take done)
      curBuf := newBuffer } := by
    constructor
    · intro apart other
      refine (Shm.splice_late shm other.shmId late bound).trans ?_
      rw [new, created.frame log.prstBuf apart]
      split
      · rfl
      · rename_i differ
        split
        · rfl
        · exact congrArg CBufferCell.nextShmId (created.frame other differ)
    · intro other differ
      exact ((shm.splice_keeps done).2 _).2.trans (congrArg CBufferCell.shmId (created.frame other differ))
    · exact ((shm.splice_keeps done).2 _).2.trans new
    · rfl
  constructor
  · exact (grown.named fresh filled.links named).ring
  · rw [(shm.splice_keeps done).1, List.map_append]
    intro shmId member
    rcases List.mem_append.mp member with old | added
    · exact filled.links.segments_of_known created.known shmId old
    · rw [List.map_singleton, List.mem_singleton] at added
      rw [added]
      exact Shm.any_of_lookup created.lookup

/-- In between they lead to the new cell, and from it to no segment. -/
theorem Filled.leads_astray (started : 4 ≤ done) (early : done < 6) :
    ∃ ids, log.prstBCShmId ∉ ids ∧
      Leads (shm.storeAll ((Shm.spliceStores log.curBuf newBuffer log.prstBuf).take done)).nextId
        (log.prstBCShmId :: ids) (-1) := by
  have ring := named.ring
  rw [List.map_append, List.map_singleton] at ring
  obtain ⟨before, _⟩ := leads_append.mp ring.leads
  obtain ⟨rest, start⟩ := ring.eq_cons
  have nodup := ring.nodup
  rw [start, List.nodup_cons] at nodup
  have fresh (cell : CellPtr) (member : cell ∈ full ++ [log.curBuf]) := filled.links.created_fresh created member
  have new : shm.cell newBuffer.shmId = .create newBuffer.shmId log.oneBuffLen := created.deref
  have formula (shmId : Int) := @Shm.splice_dangling log.curBuf newBuffer log.prstBuf done shm shmId started early
  have onward : Leads (shm.storeAll ((Shm.spliceStores log.curBuf newBuffer log.prstBuf).take done)).nextId
      (full.map CellPtr.shmId ++ [log.curBuf.shmId] ++ [newBuffer.shmId]) (-1) := by
    refine leads_concat.mpr ⟨leads_concat.mpr ⟨before.congr ?_, ?_⟩, ?_⟩
    · intro shmId member
      obtain ⟨cell, inFull, rfl⟩ := List.mem_map.mp member
      have own : cell.shmId ≠ log.curBuf.shmId := filled.links.differ (by simpa using inFull)
      rw [Shm.nextId, formula, if_neg own]
      exact congrArg (some ∘ CBufferCell.nextShmId) (created.frame cell (fresh cell (List.mem_append_left _ inFull)))
    · rw [Shm.nextId, formula, if_pos rfl, Shm.deref, new]
      rfl
    · rw [Shm.nextId, formula, if_neg (fresh log.curBuf (by simp)).symm, new]
      rfl
  rw [start] at onward
  refine ⟨rest ++ [newBuffer.shmId], ?_, onward⟩
  intro member
  rcases List.mem_append.mp member with old | added
  · exact nodup.1 old
  · have inRing : log.prstBCShmId ∈ (full ++ [log.curBuf]).map CellPtr.shmId := List.mem_of_mem_head? named.ring.head
    obtain ⟨cell, known, same⟩ := List.mem_map.mp inRing
    exact fresh cell known (same.trans (List.mem_singleton.mp added))

end Splicing

end CRingLog

/-- What every execution keeps: it is on its way from a state whose ids name the ring, and
the records that are not yet in the file are in cells of this ring. -/
structure Execution.Keeps (e : Execution) (base : LogState) (full free : List CellPtr) : Prop where
  follows : e.Follows base
  keeps : base.Keeps full free
  named : base.log.Named (full ++ free)
  records : ∀ record ∈ e.unpersisted, record.1 ∈ full ++ free

namespace Execution

variable {e : Execution} {base : LogState} {full free : List CellPtr}

theorem reachable_keeps (reachable : (executionSystem CRingLog.Constructed).Reachable allowed e) :
    ∃ base, (logSystem CRingLog.Constructed).Reachable (fun _ _ => True) base ∧
      ∃ full free, e.Keeps base full free := by
  refine reachable.simulated (fun e base => ∃ full free, e.Keeps base full free) ?_ ?_
  · rintro e ⟨log, constructed, rfl⟩
    obtain ⟨cells, shape, _, named⟩ := constructed.named
    exact ⟨.start log, ⟨log, constructed, rfl⟩, [], cells, follows_self _ _, LogState.keeps_start shape,
      named, by simp⟩
  · rintro e base step e' _ ⟨full, free, keeps⟩ taken
    obtain ⟨base', moved, follows, records⟩ := keeps.follows.act keeps.keeps taken
    rcases moved with rfl | ⟨step', moved⟩
    · refine ⟨base', .inl rfl, full, free, follows, keeps.keeps, keeps.named, ?_⟩
      intro record member
      rcases records record member with old | new
      · exact keeps.records record old
      · rw [new]
        exact keeps.keeps.shape.cur_mem
    · obtain ⟨_, full', free', same, next⟩ := keeps.keeps.act moved
      cases same
      have carries := keeps.keeps.carries keeps.named moved next.keeps
      refine ⟨base', .inr ⟨step', moved⟩, full', free', follows, next.keeps, carries.named, ?_⟩
      intro record member
      rcases records record member with old | new
      · exact carries.stay _ (keeps.records record old)
      · rw [new]
        exact next.keeps.shape.cur_mem

/-- The ring while `m_pCurBuf` is full and the stores of the growth are made. -/
theorem Keeps.filled (keeps : e.Keeps base full free) (locking : base.producers producer = .locking curSec logLine)
    (grows : base.log.grows logLine = true) (next : (base.log.cell base.log.curBuf).next = some nextBuf) :
    free = [base.log.curBuf] ∧ nextBuf = base.log.prstBuf ∧ (base.log.modify base.log.curBuf setFull).Filled full [] ∧
      (base.log.modify base.log.curBuf setFull).Named (full ++ [base.log.curBuf]) := by
  have fits := keeps.keeps.fits producer
  rw [locking] at fits
  obtain ⟨rfl, rfl, filled⟩ := keeps.keeps.shape.filled_of_grows grows next fits
  have marked := base.log.sameIds_modify base.log.curBuf setFull fun _ => ⟨rfl, rfl, rfl⟩
  exact ⟨rfl, rfl, filled, (keeps.named.of_same marked keeps.keeps.shape.links.ring filled.links.ring).named⟩

/-- Outside of those two stores the ids lead once round a ring in which all cells are. -/
theorem Keeps.loop (keeps : e.Keeps base full free) (safe : ¬ e.inside.Dangling) :
    ∃ ids, e.state.log.shm.Loop e.state.log.prstBCShmId ids ∧ ∀ cell ∈ full ++ free, cell.shmId ∈ ids := by
  obtain ⟨shm, buffCnt, same, within⟩ := keeps.follows
  rw [same]
  generalize e.inside = inside at within safe
  cases within with
  | unlocked =>
    exact ⟨_, keeps.named.loop keeps.keeps.shape.links, fun cell member => List.mem_map_of_mem member⟩
  | growing locking grows next =>
    obtain ⟨rfl, _, filled, named⟩ := keeps.filled locking grows next
    exact ⟨_, named.loop filled.links, fun cell member => List.mem_map_of_mem member⟩
  | @splicing _ _ _ _ shm newBuffer done locking grows next created bound =>
    obtain ⟨rfl, rfl, filled, named⟩ := keeps.filled locking grows next
    by_cases early : done < 4
    · exact ⟨_, filled.loop_early named (Shm.created_of_eq created) early,
        fun cell member => List.mem_map_of_mem member⟩
    · have late : 6 ≤ done := by
        by_contra between
        exact safe ⟨Nat.le_of_not_lt early, Nat.lt_of_not_le between⟩
      refine ⟨_, filled.loop_late named (Shm.created_of_eq created) late bound, fun cell member => ?_⟩
      exact List.mem_map_of_mem (List.mem_append_left _ member)
  | @clearing done clearing bound =>
    obtain ⟨ring, segments⟩ := keeps.named.loop keeps.keeps.shape.links
    obtain ⟨kept, ids⟩ := @Shm.clear_keeps base.log.prstBuf base.log.shm done
    refine ⟨_, ⟨ring.congr fun shmId _ => congrArg some (ids shmId), ?_⟩,
      fun cell member => List.mem_map_of_mem member⟩
    intro shmId member
    rw [LogState.midway, kept]
    exact segments shmId member

theorem Keeps.not_recoverable (keeps : e.Keeps base full free) (dangling : e.inside.Dangling) : ¬ e.Recoverable := by
  obtain ⟨shm, buffCnt, same, within⟩ := keeps.follows
  rintro ⟨tool, _⟩
  rw [same] at tool
  generalize e.inside = inside at within dangling
  cases within with
  | unlocked => exact dangling
  | growing => exact dangling
  | clearing => exact dangling
  | @splicing _ _ _ _ shm newBuffer done locking grows next created bound =>
    obtain ⟨rfl, rfl, filled, named⟩ := keeps.filled locking grows next
    obtain ⟨ids, fresh, leads⟩ := filled.leads_astray named (Shm.created_of_eq created) dangling.1 dangling.2
    have apart : base.log.prstBCShmId ≠ -1 := by
      intro negative
      have known := (named.loop filled.links).segments _ (List.mem_of_mem_head? named.ring.head)
      rw [Shm.not_any_of_neg (negative ▸ by decide)] at known
      cases known
    obtain ⟨rounds, r, recovers, _⟩ := tool false
    exact Shm.recover_astray leads fresh apart rounds recovers

end Execution

/-- Between which stores the process may end. -/
theorem recoverable_iff_of_reachable
    (reachable : (executionSystem CRingLog.Constructed).Reachable (fun _ _ => True) e) :
    e.Recoverable ↔ ¬ e.inside.Dangling := by
  obtain ⟨base, _, full, free, keeps⟩ := Execution.reachable_keeps reachable
  constructor
  · intro recoverable dangling
    exact keeps.not_recoverable dangling recoverable
  · intro safe
    obtain ⟨ids, loop, cells⟩ := keeps.loop safe
    exact loop.recoverable fun record member => cells record.1 (keeps.records record member)

namespace LogState

variable {s s' : LogState} {full free : List CellPtr}

/-- The number of cells never gets smaller. -/
theorem buffCnt_le (reachable : (logSystem CRingLog.Constructed).Reachable (fun _ _ => True) s)
    (taken : s.act step = some (.ok s')) : s.log.buffCnt ≤ s'.log.buffCnt := by
  obtain ⟨full, free, keeps, named⟩ := reachable_named reachable
  obtain ⟨_, full', free', same, next⟩ := keeps.act taken
  cases same
  have stay := (keeps.carries named taken next.keeps).stay
  have longer := (List.subperm_of_subset keeps.shape.links.ring.nodup stay).length_le
  have count := next.count
  omega

theorem run_buffCnt_le (reachable : (logSystem CRingLog.Constructed).Reachable (fun _ _ => True) s)
    (run : (logSystem CRingLog.Constructed).Run s steps s') : s.log.buffCnt ≤ s'.log.buffCnt := by
  induction steps generalizing s with
  | nil =>
    cases run
    exact le_rfl
  | cons step steps ih =>
    obtain ⟨between, taken, rest⟩ := run
    exact (buffCnt_le reachable taken).trans (ih (.step reachable trivial taken) rest)

/-- A section that adds a cell adds one. -/
theorem buffCnt_of_grows (locking : s.producers producer = .locking curSec logLine)
    (grows : s.log.grows logLine = true) (taken : s.act (.append producer) = some (.ok s')) :
    s'.log.buffCnt = s.log.buffCnt + 1 := by
  cases next : (s.log.cell s.log.curBuf).next with
  | none => simp [CRingLog.grows, next] at grows
  | some nextBuf =>
    obtain ⟨isFree, narrow, _⟩ := (CRingLog.grows_iff next).mp grows
    obtain ⟨shm, newBuffer, created, _⟩ := (s.log.shm.modify s.log.curBuf setFull).createCellBuffer_succeeds
      (SHMKEY + s.log.buffCnt) s.log.oneBuffLen
    have result := CRingLog.appendLocked_of_moveOn isFree narrow (CRingLog.moveOn_of_grows grows next created curSec)
    simp only [act, locking, result, bind, Except.bind] at taken
    split at taken
    · cases taken
    · rename_i outcome settled
      split at settled <;> cases settled <;> cases taken <;> rfl

end LogState

namespace Execution

variable {e : Execution} {s s' : LogState}

/-- A run in which the ring neither grows nor is cleared is one of whole steps. -/
theorem run_whole (reachable : (logSystem CRingLog.Constructed).Reachable (fun _ _ => True) s)
    (run : (logSystem CRingLog.Constructed).Run s steps s') (same : s'.log.buffCnt = s.log.buffCnt)
    (remain : .clear ∉ steps) (unpersisted : List (CellPtr × Bytes)) :
    ∃ unpersisted', (executionSystem CRingLog.Constructed).Run ⟨s, .unlocked, unpersisted⟩ (steps.map .whole)
      ⟨s', .unlocked, unpersisted'⟩ := by
  induction steps generalizing s unpersisted with
  | nil =>
    cases run
    exact ⟨unpersisted, rfl⟩
  | cons step steps ih =>
    obtain ⟨between, taken, rest⟩ := run
    have reached : (logSystem CRingLog.Constructed).Reachable (fun _ _ => True) between :=
      .step reachable trivial taken
    have up := LogState.buffCnt_le reachable taken
    have onward := LogState.run_buffCnt_le reached rest
    have may : (⟨s, .unlocked, unpersisted⟩ : Execution).allows step = true := by
      cases step with
      | enter producer curSec logLine => rfl
      | unthrottle producer => rfl
      | persist opened => rfl
      | check => rfl
      | clear => simp at remain
      | append producer =>
        cases state : s.producers producer with
        | idle => simp [logSystem, LogState.act, state] at taken
        | passed curSec logLine => simp [logSystem, LogState.act, state] at taken
        | locking curSec logLine =>
          have still : ¬ s.log.grows logLine = true := by
            intro grows
            have more := LogState.buffCnt_of_grows state grows taken
            omega
          simp [allows, state, still]
    obtain ⟨unpersisted', lifted⟩ := ih reached rest (by omega) (fun member => remain (by simp [member]))
      ((⟨s, .unlocked, unpersisted⟩ : Execution).after step between)
    refine ⟨unpersisted', _, ?_, lifted⟩
    have moved : s.act step = some (.ok between) := taken
    simp only [executionSystem, act, may, moved, if_true]
    rfl

theorem run_stores (initial : CRingLog → Prop) {producer done : Nat} {newBuffer nextBuf : CellPtr}
    (inside : e.inside = .splicing producer newBuffer nextBuf done) (bound : done + more ≤ 8) :
    ∃ e', (executionSystem initial).Run e (List.replicate more .store) e' ∧
      e'.inside = .splicing producer newBuffer nextBuf (done + more) := by
  induction more generalizing e done with
  | zero => exact ⟨e, rfl, inside⟩
  | succ more ih =>
    obtain ⟨store, found⟩ : ∃ store, (Shm.spliceStores e.state.log.curBuf newBuffer nextBuf)[done]? = some store :=
      ⟨_, List.getElem?_eq_getElem (show done < 8 by omega)⟩
    obtain ⟨e', run, inside'⟩ := @ih { e with
      state := { e.state with log := { e.state.log with shm := store e.state.log.shm } }
      inside := .splicing producer newBuffer nextBuf (done + 1) } (done + 1) rfl (by omega)
    refine ⟨e', ⟨_, ?_, run⟩, ?_⟩
    · simp only [executionSystem, act, inside, found]
      rfl
    · rw [inside']
      congr 1
      omega

/-- A producer whose section adds a cell can come as far as this. -/
theorem run_growth (initial : CRingLog → Prop) {producer curSec done : Nat} {logLine : Bytes} {nextBuf : CellPtr}
    (inside : e.inside = .unlocked) (locking : e.state.producers producer = .locking curSec logLine)
    (grows : e.state.log.grows logLine = true) (next : (e.state.log.cell e.state.log.curBuf).next = some nextBuf)
    (bound : done ≤ 8) :
    ∃ e' newBuffer, (executionSystem initial).Run e ([.fill producer, .create] ++ List.replicate done .store) e' ∧
      e'.inside = .splicing producer newBuffer nextBuf done := by
  obtain ⟨shm, newBuffer, created, _⟩ := (e.state.log.shm.modify e.state.log.curBuf setFull).createCellBuffer_succeeds
    (SHMKEY + e.state.log.buffCnt) e.state.log.oneBuffLen
  let filled : Execution := { e with
    state := { e.state with log := e.state.log.modify e.state.log.curBuf setFull }
    inside := .growing producer nextBuf }
  have fills : e.act (.fill producer) = some (.ok filled) := by
    simp only [act, inside, locking, next, grows, if_true]
    rfl
  let made : Execution := { filled with
    state := { filled.state with log := { filled.state.log with shm, buffCnt := filled.state.log.buffCnt + 1 } }
    inside := .splicing producer newBuffer nextBuf 0 }
  have creates : filled.act .create = some (.ok made) := by
    have created' : filled.state.log.shm.createCellBuffer (SHMKEY + filled.state.log.buffCnt)
        filled.state.log.oneBuffLen .succeeds = .ok (shm, some newBuffer) := created
    have inside₁ : filled.inside = .growing producer nextBuf := rfl
    simp only [act, inside₁, created', bind, Except.bind]
    rfl
  have inside₂ : made.inside = .splicing producer newBuffer nextBuf 0 := rfl
  obtain ⟨e', stores, inside'⟩ := run_stores initial inside₂ (show 0 + done ≤ 8 by omega)
  rw [Nat.zero_add] at inside'
  exact ⟨e', newBuffer, ⟨filled, fills, made, creates, stores⟩, inside'⟩

end Execution

/-- Both cells of the constructor are filled, and with one more record the ring grows, as far
as this many stores. -/
def crashSteps (done : Nat) : List ExecutionStep :=
  (kilobyteSteps 0 61440 ++ [LogStep.enter 0 0 kilobyte, .unthrottle 0]).map .whole ++
    ([.fill 0, .create] ++ List.replicate done .store)

theorem crash_run (done : Nat) (bound : done ≤ 8) :
    ∃ log e newBuffer nextBuf,
      CRingLog.create .empty none 0 (30 * 1024 * 1024) .succeeds .succeeds .succeeds = .ok (some log) ∧
      (executionSystem CRingLog.Constructed).Run ⟨.start log, .unlocked, []⟩ (crashSteps done) e ∧
      (executionSystem CRingLog.Constructed).Reachable (fun _ _ => True) e ∧
      e.inside = .splicing 0 newBuffer nextBuf done := by
  obtain ⟨log, made, size, _, _, _, _, _, _, built⟩ := CRingLog.construct_built .empty (30 * 1024 * 1024)
  have constructed : log.Constructed := ⟨.empty, none, 0, 30 * 1024 * 1024, made⟩
  obtain ⟨s, full, sends, packed⟩ := LogState.packed_run CRingLog.Constructed built size 0 0 (Nat.zero_le 99)
  have locks := LogState.run_lock CRingLog.Constructed 0 0 (congrFun packed.idle 0) packed.quiet packed.fits
  have initial : (logSystem CRingLog.Constructed).Reachable (fun _ _ => True) (.start log) :=
    .init ⟨log, constructed, rfl⟩
  have count : s.log.buffCnt = log.buffCnt := packed.buffCnt.trans built.buffCnt.symm
  have remain : LogStep.clear ∉ kilobyteSteps 0 ((0 + 2) * 30720) ++ [.enter 0 0 kilobyte, .unthrottle 0] := by
    intro member
    rcases List.mem_append.mp member with sent | last
    · simpa [sendSteps] using mem_kilobyteSteps sent
    · simp at last
  obtain ⟨unpersisted, whole⟩ := Execution.run_whole initial (sends.append locks) count remain []
  obtain ⟨next, isFull⟩ := packed.filled.next_full
  rw [show (s.log.modify s.log.curBuf setFull).curBuf = s.log.curBuf from rfl, CRingLog.cell_modify_self] at next
  have below : s.log.overLimit = false := by
    rw [← Bool.not_eq_true, packed.overLimit_iff (by decide)]
    decide
  obtain ⟨e, newBuffer, growth, inside⟩ := @Execution.run_growth
    ⟨s.setProducer 0 (.locking 0 kilobyte), .unlocked, unpersisted⟩ CRingLog.Constructed 0 0 done kilobyte _ rfl
    (by simp [LogState.setProducer]) (packed.grows below) next bound
  have run := whole.append growth
  have start : (executionSystem CRingLog.Constructed).Reachable (fun _ _ => True) ⟨.start log, .unlocked, []⟩ :=
    .init ⟨log, constructed, rfl⟩
  exact ⟨log, e, newBuffer, _, made, run, start.run run, inside⟩

/-- With the new cell linked in, all but the way back, everything can be recovered. -/
theorem linked_recoverable :
    ∃ log e, CRingLog.create .empty none 0 (30 * 1024 * 1024) .succeeds .succeeds .succeeds = .ok (some log) ∧
      (executionSystem CRingLog.Constructed).Run ⟨.start log, .unlocked, []⟩ (crashSteps 6) e ∧ e.Recoverable := by
  obtain ⟨log, e, newBuffer, nextBuf, made, run, reachable, inside⟩ := crash_run 6 (by decide)
  refine ⟨log, e, made, run, (recoverable_iff_of_reachable reachable).mpr ?_⟩
  rw [inside]
  rintro ⟨_, early⟩
  exact absurd early (by decide)

/-- Two stores earlier nothing that is behind the new cell can be. -/
theorem named_not_recoverable :
    ∃ log e, CRingLog.create .empty none 0 (30 * 1024 * 1024) .succeeds .succeeds .succeeds = .ok (some log) ∧
      (executionSystem CRingLog.Constructed).Run ⟨.start log, .unlocked, []⟩ (crashSteps 4) e ∧ ¬ e.Recoverable := by
  obtain ⟨log, e, newBuffer, nextBuf, made, run, reachable, inside⟩ := crash_run 4 (by decide)
  obtain ⟨base, _, full, free, keeps⟩ := Execution.reachable_keeps reachable
  refine ⟨log, e, made, run, keeps.not_recoverable ?_⟩
  rw [inside]
  exact ⟨by decide, by decide⟩

end WSlyh.Log
