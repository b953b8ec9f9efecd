import WSlyh.Log.Stores

/-! Any number of producers and the one consumer again, but now the growth of the ring and
the clearing of a cell are taken store by store. Each step of such an execution is none or
one step of the critical sections as a whole. -/

namespace WSlyh.Log

open Libc Lib

/-- What the holder of the lock is in the middle of. -/
inductive Inside
  | unlocked
  | growing (producer : Nat) (nextBuf : CellPtr)
  | splicing (producer : Nat) (newBuffer nextBuf : CellPtr) (done : Nat)
  | clearing (done : Nat)
  deriving DecidableEq

/-- `unpersisted` are the accepted records that are not in the file yet, each with its cell. -/
structure Execution where
  state : LogState
  inside : Inside
  unpersisted : List (CellPtr × Bytes)

/-- `whole` are the steps that are taken as one: those without the lock, and the critical
sections in which the ring neither grows nor is cleared. -/
inductive ExecutionStep
  | whole (step : LogStep)
  | fill (producer : Nat)
  | create
  | store
  | finish
  | clear

/-- The locked section of `TryAppendLog` for this record adds a cell. -/
def CRingLog.grows (log : CRingLog) (logLine : Bytes) : Bool :=
  (log.cell log.curBuf).status = .free ∧ (log.cell log.curBuf).getFreeLen < logLine.length ∧
    (log.cell log.curBuf).next.any (fun nextBuf => ((log.modify log.curBuf setFull).cell nextBuf).status = .full) ∧
    ¬ log.overLimit

namespace Execution

/-- Whether a step may be taken as one. -/
def allows (e : Execution) : LogStep → Bool
  | .enter .. | .unthrottle _ | .persist _ => true
  | .append producer =>
    match e.state.producers producer with
    | .locking _ logLine => e.inside = .unlocked ∧ ¬ e.state.log.grows logLine
    | _ => false
  | .check => e.inside = .unlocked
  | .clear => false

/-- The records that are unpersisted after a step. -/
def after (e : Execution) (step : LogStep) (state' : LogState) : List (CellPtr × Bytes) :=
  match step with
  | .append _ => e.unpersisted ++ (state'.accepted.drop e.state.accepted.length).map (Prod.mk state'.log.curBuf)
  | .persist true => e.unpersisted.filter (·.1 ≠ e.state.log.prstBuf)
  | _ => e.unpersisted

/-- The last step of a growth: `m_pCurBuf` moves on, the record is appended, the lock is free. -/
def finishGrowth (e : Execution) (producer : Nat) (newBuffer : CellPtr) (logLine : Bytes) : Execution :=
  let log := { e.state.log with curBuf := newBuffer }
  let calls := log.lastLogFailTime == 0
  { state := { e.state with
      log := if calls then log.modify log.curBuf (·.append logLine) else log
      accepted := if calls then e.state.accepted ++ [logLine] else e.state.accepted }.setProducer producer .idle
    inside := .unlocked
    unpersisted := if calls then e.unpersisted ++ [(newBuffer, logLine)] else e.unpersisted }

def act (e : Execution) : ExecutionStep → Option (Except Fault Execution)
  | .whole step =>
    if e.allows step then (e.state.act step).map fun outcome =>
      outcome.map fun state' => { e with state := state', unpersisted := e.after step state' }
    else none
  | .fill producer =>
    match e.inside, e.state.producers producer, (e.state.log.cell e.state.log.curBuf).next with
    | .unlocked, .locking _ logLine, some nextBuf =>
      if e.state.log.grows logLine then some (.ok { e with
        state := { e.state with log := e.state.log.modify e.state.log.curBuf setFull }
        inside := .growing producer nextBuf })
      else none
    | _, _, _ => none
  | .create =>
    match e.inside with
    | .growing producer nextBuf => some do
      match ← e.state.log.shm.createCellBuffer (SHMKEY + e.state.log.buffCnt) e.state.log.oneBuffLen .succeeds with
      | (_, none) => .error .nullCell
      | (shm, some newBuffer) => .ok { e with
        state := { e.state with log := { e.state.log with shm, buffCnt := e.state.log.buffCnt + 1 } }
        inside := .splicing producer newBuffer nextBuf 0 }
    | _ => none
  | .store =>
    match e.inside with
    | .splicing producer newBuffer nextBuf done =>
      ((Shm.spliceStores e.state.log.curBuf newBuffer nextBuf)[done]?).map fun store => .ok { e with
        state := { e.state with log := { e.state.log with shm := store e.state.log.shm } }
        inside := .splicing producer newBuffer nextBuf (done + 1) }
    | .clearing done =>
      ((Shm.clearStores e.state.log.prstBuf)[done]?).map fun store => .ok { e with
        state := { e.state with log := { e.state.log with shm := store e.state.log.shm } }
        inside := .clearing (done + 1) }
    | _ => none
  | .finish =>
    match e.inside with
    | .splicing producer newBuffer nextBuf done =>
      match e.state.producers producer with
      | .locking _ logLine =>
        if done = (Shm.spliceStores e.state.log.curBuf newBuffer nextBuf).length then
          some (.ok (e.finishGrowth producer newBuffer logLine))
        else none
      | _ => none
    | .clearing done =>
      if done = (Shm.clearStores e.state.log.prstBuf).length then
        match (e.state.log.cell e.state.log.prstBuf).next with
        | none => some (.error .nullCell)
        | some nextBuf => some (.ok { e with
          state := { e.state with
            log := { e.state.log with prstBuf := nextBuf, prstBCShmId := (e.state.log.cell nextBuf).shmId }
            consumer := .checking }
          inside := .unlocked })
      else none
    | _ => none
  | .clear =>
    if e.inside = .unlocked ∧ e.state.consumer = .clearing then some (.ok { e with inside := .clearing 0 }) else none

end Execution

def executionSystem (start : CRingLog → Prop) : System Execution ExecutionStep where
  init e := ∃ log, start log ∧ e = ⟨.start log, .unlocked, []⟩
  step e step e' := e.act step = some (.ok e')

/-- The state while the holder of the lock is at its stores. -/
def LogState.midway (base : LogState) (shm : Shm) (buffCnt : Nat) : LogState :=
  { base with log := { base.log with shm, buffCnt } }

/-- What the steps without the lock leave alone. -/
structure LogState.Beside (base base' : LogState) : Prop where
  log : ∃ time, base'.log = { base.log with lastLogFailTime := time }
  locking : ∀ producer curSec logLine, base.producers producer = .locking curSec logLine →
    base'.producers producer = .locking curSec logLine
  clearing : base.consumer = .clearing → base'.consumer = .clearing

/-- A step without the lock may as well be taken before the stores that have been made. -/
theorem LogState.act_midway {base : LogState} {shm : Shm} {buffCnt : Nat} {step : LogStep}
    (data : base.consumer = .persisting →
      (shm.deref base.log.prstBuf).aData = (base.log.cell base.log.prstBuf).aData)
    (aside : step ≠ .check ∧ step ≠ .clear ∧ ∀ producer, step ≠ .append producer)
    (taken : (base.midway shm buffCnt).act step = some (.ok s')) :
    ∃ base', base.act step = some (.ok base') ∧ s' = base'.midway shm buffCnt ∧ base.Beside base' := by
  cases step with
  | enter producer curSec logLine =>
    by_cases ready : base.producers producer = .idle ∧ logLine.length ≤ base.log.oneBuffLen
    · by_cases throttled : base.log.throttled curSec = true
      · have result : (base.midway shm buffCnt).act (.enter producer curSec logLine) =
            some (.ok (base.midway shm buffCnt)) := (if_pos ready).trans (if_pos throttled)
        cases taken.symm.trans result
        refine ⟨base, (if_pos ready).trans (if_pos throttled), rfl, ⟨base.log.lastLogFailTime, rfl⟩, ?_, ?_⟩
        · intro other time line locking
          exact locking
        · intro clearing
          exact clearing
      · have result : (base.midway shm buffCnt).act (.enter producer curSec logLine) =
            some (.ok ((base.midway shm buffCnt).setProducer producer (.passed curSec logLine))) :=
          (if_pos ready).trans (if_neg throttled)
        cases taken.symm.trans result
        refine ⟨base.setProducer producer (.passed curSec logLine), (if_pos ready).trans (if_neg throttled), rfl,
          ⟨base.log.lastLogFailTime, rfl⟩, ?_, ?_⟩
        · intro other time line locking
          apply (Function.update_of_ne _ _ _).trans locking
          rintro rfl
          rw [ready.1] at locking
          cases locking
        · intro clearing
          exact clearing
    · have result : (base.midway shm buffCnt).act (.enter producer curSec logLine) = none := if_neg ready
      cases taken.symm.trans result
  | unthrottle producer =>
    cases state : base.producers producer with
    | passed curSec logLine =>
      have result : (base.midway shm buffCnt).act (.unthrottle producer) =
          some (.ok (({ base with log := { base.log with lastLogFailTime := 0 } }.setProducer producer
            (.locking curSec logLine)).midway shm buffCnt)) := by
        simp [act, midway, state, setProducer]
      cases taken.symm.trans result
      refine ⟨{ base with log := { base.log with lastLogFailTime := 0 } }.setProducer producer
          (.locking curSec logLine),
        ?_, rfl, ⟨0, rfl⟩, ?_, ?_⟩
      · rw [act, state]
      · intro other time line locking
        apply (Function.update_of_ne _ _ _).trans locking
        rintro rfl
        rw [state] at locking
        cases locking
      · intro clearing
        exact clearing
    | idle => simp [act, midway, state] at taken
    | locking curSec logLine => simp [act, midway, state] at taken
  | persist opened =>
    by_cases persisting : base.consumer = .persisting
    · cases opened with
      | true =>
        have result : (base.midway shm buffCnt).act (.persist true) = some (.ok { base.midway shm buffCnt with
            persisted := base.persisted ++ (shm.deref base.log.prstBuf).aData
            consumer := .clearing }) := (if_pos persisting).trans (if_pos rfl)
        cases taken.symm.trans result
        refine ⟨{ base with
          persisted := base.persisted ++ (base.log.cell base.log.prstBuf).persist
          consumer := .clearing }, (if_pos persisting).trans (if_pos rfl), ?_, ⟨base.log.lastLogFailTime, rfl⟩, ?_, ?_⟩
        · rw [data persisting]
          rfl
        · intro other time line locking
          exact locking
        · intro _
          rfl
      | false =>
        have result : (base.midway shm buffCnt).act (.persist false) =
            some (.ok { base.midway shm buffCnt with consumer := .checking }) :=
          (if_pos persisting).trans (if_neg Bool.false_ne_true)
        cases taken.symm.trans result
        refine ⟨{ base with consumer := .checking }, (if_pos persisting).trans (if_neg Bool.false_ne_true), rfl,
          ⟨base.log.lastLogFailTime, rfl⟩, ?_, ?_⟩
        · intro other time line locking
          exact locking
        · intro clearing
          rw [persisting] at clearing
          cases clearing
    · have result : (base.midway shm buffCnt).act (.persist opened) = none := if_neg persisting
      cases taken.symm.trans result
  | append producer => exact absurd rfl (aside.2.2 producer)
  | check => exact absurd rfl aside.1
  | clear => exact absurd rfl aside.2.1

/-- The way that the holder of the lock has come from `base`, in which the lock was free: the
memory and the number of cells by now. -/
inductive LogState.Within (base : LogState) : Inside → Shm → Nat → Prop
  | unlocked : base.Within .unlocked base.log.shm base.log.buffCnt
  | growing (locking : base.producers producer = .locking curSec logLine) (grows : base.log.grows logLine = true)
      (next : (base.log.cell base.log.curBuf).next = some nextBuf) :
      base.Within (.growing producer nextBuf) (base.log.shm.modify base.log.curBuf setFull) base.log.buffCnt
  | splicing (locking : base.producers producer = .locking curSec logLine) (grows : base.log.grows logLine = true)
      (next : (base.log.cell base.log.curBuf).next = some nextBuf)
      (created : (base.log.shm.modify base.log.curBuf setFull).createCellBuffer (SHMKEY + base.log.buffCnt)
        base.log.oneBuffLen .succeeds = .ok (shm, some newBuffer))
      (bound : done ≤ 8) :
      base.Within (.splicing producer newBuffer nextBuf done)
        (shm.storeAll ((Shm.spliceStores base.log.curBuf newBuffer nextBuf).take done)) (base.log.buffCnt + 1)
  | clearing (clearing : base.consumer = .clearing) (bound : done ≤ 3) :
      base.Within (.clearing done) (base.log.shm.storeAll ((Shm.clearStores base.log.prstBuf).take done))
        base.log.buffCnt

/-- The execution is on its way from `base`. -/
def Execution.Follows (e : Execution) (base : LogState) : Prop :=
  ∃ shm buffCnt, e.state = base.midway shm buffCnt ∧ base.Within e.inside shm buffCnt

theorem Shm.created_of_eq {shm : Shm}
    (made : shm.createCellBuffer key len .succeeds = .ok (shm', some bc)) : shm.Created key len shm' bc := by
  obtain ⟨_, _, made', created⟩ := shm.createCellBuffer_succeeds key len
  cases made'.symm.trans made
  exact created

namespace CRingLog

variable {log : CRingLog} {cells : List CellPtr} {cell newBuffer nextBuf : CellPtr} {logLine : Bytes} {shm : Shm}

/-- A new cell has a segment of its own. -/
theorem Links.created_fresh (links : log.Links cells)
    (created : log.shm.Created (SHMKEY + log.buffCnt) log.oneBuffLen shm newBuffer) (member : cell ∈ cells) :
    cell.shmId ≠ newBuffer.shmId := by
  obtain ⟨j, used, found⟩ := links.keyed cell member
  intro same
  have kept := created.known _ _ found
  rw [same] at kept
  have keys := Shm.lookup_injective kept created.lookup
  omega

theorem grows_iff (next : (log.cell log.curBuf).next = some nextBuf) :
    log.grows logLine = true ↔ (log.cell log.curBuf).status = .free ∧
      (log.cell log.curBuf).getFreeLen < logLine.length ∧
      ((log.modify log.curBuf setFull).cell nextBuf).status = .full ∧ log.overLimit = false := by
  simp [grows, next]

/-- The growth as a whole. -/
theorem moveOn_of_grows (grows : log.grows logLine = true) (next : (log.cell log.curBuf).next = some nextBuf)
    (created : (log.shm.modify log.curBuf setFull).createCellBuffer (SHMKEY + log.buffCnt) log.oneBuffLen .succeeds =
      .ok (shm, some newBuffer)) (curSec : Nat) :
    (log.modify log.curBuf setFull).moveOn curSec .succeeds = .ok { log with
      shm := (shm.link log.curBuf newBuffer).link newBuffer nextBuf
      buffCnt := log.buffCnt + 1
      curBuf := newBuffer } := by
  obtain ⟨_, _, isFull, limit⟩ := (grows_iff next).mp grows
  have found : ((log.modify log.curBuf setFull).cell (log.modify log.curBuf setFull).curBuf).next = some nextBuf := by
    rw [show (log.modify log.curBuf setFull).curBuf = log.curBuf from rfl, cell_modify_self]
    exact next
  have below : (log.modify log.curBuf setFull).overLimit = false := limit
  have made : (log.modify log.curBuf setFull).shm.createCellBuffer (SHMKEY + (log.modify log.curBuf setFull).buffCnt)
      (log.modify log.curBuf setFull).oneBuffLen .succeeds = .ok (shm, some newBuffer) := created
  simp only [moveOn, found, isFull, below, if_true, Bool.false_eq_true, if_false, grow, made, bind, Except.bind]
  rfl

end CRingLog

namespace LogState

variable {base base' : LogState} {inside : Inside} {shm : Shm} {buffCnt : Nat}

theorem Within.beside (within : base.Within inside shm buffCnt) (locked : inside ≠ .unlocked)
    (beside : base.Beside base') : base'.Within inside shm buffCnt := by
  obtain ⟨⟨time, log⟩, lockings, clearings⟩ := beside
  cases within with
  | unlocked => exact absurd rfl locked
  | growing locking grows next =>
    have moved := @Within.growing base' _ _ _ _ (lockings _ _ _ locking) (by rw [log]; exact grows)
      (by rw [log]; exact next)
    rw [log] at moved
    exact moved
  | splicing locking grows next created bound =>
    have moved := @Within.splicing base' _ _ _ _ _ _ _ (lockings _ _ _ locking) (by rw [log]; exact grows)
      (by rw [log]; exact next) (by rw [log]; exact created) bound
    rw [log] at moved
    exact moved
  | clearing clearing bound =>
    have moved := @Within.clearing base' _ (clearings clearing) bound
    rw [log] at moved
    exact moved

/-- The cell that is written to the file is not touched meanwhile. -/
theorem Within.data (within : base.Within inside shm buffCnt) (keeps : base.Keeps full free)
    (persisting : base.consumer = .persisting) :
    (shm.deref base.log.prstBuf).aData = (base.log.cell base.log.prstBuf).aData := by
  cases within with
  | unlocked => rfl
  | growing => exact CRingLog.data_setFull ..
  | splicing locking grows next created bound =>
    have created' := Shm.created_of_eq created
    have links : (base.log.modify base.log.curBuf setFull).Links (full ++ free) :=
      keeps.shape.links.modify _ fun _ => ⟨rfl, rfl⟩
    have known : base.log.prstBuf ∈ full ++ free := List.mem_of_mem_head? (by rw [keeps.shape.links.ring.head]; rfl)
    have fresh := links.created_fresh created' known
    have old := congrArg CBufferCell.aData (created'.frame base.log.prstBuf fresh)
    exact ((Shm.splice_keeps _ _).2 _).1.trans (old.trans (CRingLog.data_setFull ..))
  | clearing clearing bound =>
    rw [persisting] at clearing
    cases clearing

end LogState

namespace Execution

variable {e e' : Execution} {base : LogState} {full free : List CellPtr}

theorem mem_after {state' : LogState} {record : CellPtr × Bytes} (step : LogStep)
    (member : record ∈ e.after step state') :
    record ∈ e.unpersisted ∨ record.1 = state'.log.curBuf := by
  cases step with
  | append producer =>
    rcases List.mem_append.mp member with old | new
    · exact .inl old
    · obtain ⟨logLine, _, rfl⟩ := List.mem_map.mp new
      exact .inr rfl
  | persist opened =>
    cases opened with
    | true => exact .inl (List.mem_of_mem_filter member)
    | false => exact .inl member
  | enter producer curSec logLine => exact .inl member
  | unthrottle producer => exact .inl member
  | check => exact .inl member
  | clear => exact .inl member

theorem follows_self (state : LogState) (unpersisted : List (CellPtr × Bytes)) :
    (⟨state, .unlocked, unpersisted⟩ : Execution).Follows state := ⟨_, _, rfl, .unlocked⟩

/-- A step that is taken as one is one step from `base` as well. -/
theorem Follows.whole {step : LogStep} {state' : LogState} (follows : e.Follows base) (keeps : base.Keeps full free)
    (may : e.allows step = true) (taken : e.state.act step = some (.ok state')) :
    ∃ base', base.act step = some (.ok base') ∧ state'.log.curBuf = base'.log.curBuf ∧
      ∀ unpersisted, (⟨state', e.inside, unpersisted⟩ : Execution).Follows base' := by
  obtain ⟨shm, buffCnt, same, within⟩ := follows
  by_cases inside : e.inside = .unlocked
  · rw [inside] at within ⊢
    cases within
    have here : e.state = base := same
    rw [here] at taken
    exact ⟨state', taken, rfl, follows_self state'⟩
  · have aside : step ≠ .check ∧ step ≠ .clear ∧ ∀ producer, step ≠ .append producer := by
      refine ⟨?_, ?_, ?_⟩
      · rintro rfl
        simp [allows, inside] at may
      · rintro rfl
        cases may
      · rintro producer rfl
        simp only [allows] at may
        split at may
        · simp [inside] at may
        · cases may
    rw [same] at taken
    obtain ⟨base', moved, rfl, beside⟩ := LogState.act_midway (within.data keeps) aside taken
    exact ⟨base', moved, rfl, fun _ => ⟨shm, buffCnt, rfl, within.beside inside beside⟩⟩

theorem Follows.fill (follows : e.Follows base) (taken : e.act (.fill producer) = some (.ok e')) :
    e'.Follows base ∧ e'.unpersisted = e.unpersisted := by
  simp only [act] at taken
  split at taken
  · rename_i curSec logLine nextBuf inside locking next
    split at taken
    · rename_i grows
      cases taken
      obtain ⟨shm, buffCnt, same, within⟩ := follows
      rw [inside] at within
      cases within
      have here : e.state = base := same
      rw [here] at locking grows next
      refine ⟨⟨_, _, ?_, .growing locking grows next⟩, rfl⟩
      rw [here]
      rfl
    · cases taken
  · cases taken

theorem Follows.create (follows : e.Follows base) (taken : e.act .create = some (.ok e')) :
    e'.Follows base ∧ e'.unpersisted = e.unpersisted := by
  simp only [act] at taken
  split at taken
  · rename_i producer nextBuf inside
    obtain ⟨⟨shm', made⟩, created, rest⟩ := bind_eq_ok.mp (Option.some.inj taken)
    cases made with
    | none => cases rest
    | some newBuffer =>
      cases rest
      obtain ⟨shm, buffCnt, same, within⟩ := follows
      rw [inside] at within
      cases within with
      | growing locking grows next =>
        rw [same] at created
        refine ⟨⟨_, _, ?_, .splicing locking grows next created (Nat.zero_le 8)⟩, rfl⟩
        rw [same]
        rfl
  · cases taken

theorem Follows.store (follows : e.Follows base) (taken : e.act .store = some (.ok e')) :
    e'.Follows base ∧ e'.unpersisted = e.unpersisted := by
  obtain ⟨shm, buffCnt, same, within⟩ := follows
  simp only [act] at taken
  split at taken
  · rename_i producer newBuffer nextBuf done inside
    obtain ⟨store, found, stored⟩ := Option.map_eq_some_iff.mp taken
    cases stored
    rw [inside] at within
    cases within with
    | splicing locking grows next created bound =>
      rw [same] at found ⊢
      have more : done < 8 := (List.getElem?_eq_some_iff.mp found).1
      refine ⟨⟨_, _, ?_, .splicing locking grows next created more⟩, rfl⟩
      exact congrArg (fun shm => base.midway shm _) (Shm.storeAll_succ _ found)
  · rename_i done inside
    obtain ⟨store, found, stored⟩ := Option.map_eq_some_iff.mp taken
    cases stored
    rw [inside] at within
    cases within with
    | clearing clearing bound =>
      rw [same] at found ⊢
      have more : done < 3 := (List.getElem?_eq_some_iff.mp found).1
      refine ⟨⟨_, _, ?_, .clearing clearing more⟩, rfl⟩
      exact congrArg (fun shm => base.midway shm _) (Shm.storeAll_succ _ found)
  · cases taken

theorem Follows.clear (follows : e.Follows base) (taken : e.act .clear = some (.ok e')) :
    e'.Follows base ∧ e'.unpersisted = e.unpersisted := by
  simp only [act] at taken
  split at taken
  · rename_i ready
    cases taken
    obtain ⟨shm, buffCnt, same, within⟩ := follows
    rw [ready.1] at within
    cases within
    have here : e.state = base := same
    refine ⟨⟨_, _, ?_, @LogState.Within.clearing base 0 (here ▸ ready.2) (Nat.zero_le 3)⟩, rfl⟩
    exact here
  · cases taken

theorem finishGrowth_curBuf (e : Execution) (producer : Nat) (newBuffer : CellPtr) (logLine : Bytes) :
    (e.finishGrowth producer newBuffer logLine).state.log.curBuf = newBuffer := by
  simp only [finishGrowth]
  split <;> rfl

/-- With all stores made, what is left of a growth brings it to where the section as a whole
ends. -/
theorem finishGrowth_eq {newBuffer nextBuf : CellPtr}
    (within : base.Within (.splicing producer newBuffer nextBuf 8) shm buffCnt)
    (same : e.state = base.midway shm buffCnt)
    (locking : base.producers producer = .locking curSec logLine) :
    base.act (.append producer) = some (.ok (e.finishGrowth producer newBuffer logLine).state) := by
  cases within with
  | splicing locking' grows next created bound =>
    cases locking'.symm.trans locking
    have moved := CRingLog.moveOn_of_grows grows next created curSec
    obtain ⟨isFree, narrow, _⟩ := (CRingLog.grows_iff next).mp grows
    have result := CRingLog.appendLocked_of_moveOn isFree narrow moved
    have state := same
    rw [Shm.splice_full, Shm.splice_all] at state
    by_cases quiet : base.log.lastLogFailTime = 0
    · rw [if_pos quiet] at result
      simp only [LogState.act, locking, result, bind, Except.bind]
      simp only [finishGrowth, state, LogState.midway, quiet, beq_self_eq_true, if_true]
    · rw [if_neg quiet] at result
      have loud : (base.log.lastLogFailTime == 0) = false := beq_eq_false_iff_ne.mpr quiet
      simp only [LogState.act, locking, result, bind, Except.bind]
      simp only [finishGrowth, state, LogState.midway, loud, Bool.false_eq_true, if_false]

theorem Follows.finish (follows : e.Follows base) (taken : e.act .finish = some (.ok e')) :
    ∃ base', (∃ step, base.act step = some (.ok base')) ∧ e'.Follows base' ∧
      ∀ record ∈ e'.unpersisted, record ∈ e.unpersisted ∨ record.1 = base'.log.curBuf := by
  obtain ⟨shm, buffCnt, same, within⟩ := follows
  simp only [act] at taken
  split at taken
  · rename_i producer newBuffer nextBuf done inside
    rw [inside] at within
    split at taken
    · rename_i curSec logLine locking
      split at taken
      · rename_i whole
        cases whole
        cases taken
        rw [same] at locking
        refine ⟨_, ⟨.append producer, finishGrowth_eq within same locking⟩, follows_self _ _, ?_⟩
        intro record member
        rw [finishGrowth_curBuf]
        simp only [finishGrowth] at member
        split at member
        · rcases List.mem_append.mp member with old | new
          · exact .inl old
          · exact .inr (congrArg Prod.fst (List.mem_singleton.mp new))
        · exact .inl member
      · cases taken
    · cases taken
  · rename_i done inside
    rw [inside] at within
    split at taken
    · rename_i whole
      cases whole
      split at taken
      · cases taken
      · rename_i nextBuf next
        cases taken
        cases within with
        | clearing clearing bound =>
          have cleared := Shm.clear_all base.log.shm base.log.prstBuf
          have state : e.state = base.midway (base.log.shm.modify base.log.prstBuf CBufferCell.clearBuffer)
              base.log.buffCnt := same.trans (congrArg (fun shm => base.midway shm _) cleared)
          rw [state] at next ⊢
          have before : (base.log.cell base.log.prstBuf).next = some nextBuf := by
            have kept := CRingLog.cell_modify_self base.log base.log.prstBuf CBufferCell.clearBuffer
            exact (congrArg CBufferCell.next kept).symm.trans next
          refine ⟨_, ⟨.clear, ?_⟩, follows_self _ _, fun record member => .inl member⟩
          simp only [LogState.act, clearing, if_true, CRingLog.clearLocked_of_next before, bind, Except.bind]
          rfl
    · cases taken
  · cases taken

/-- Each step is none or one step of the sections as a whole. -/
theorem Follows.act {step : ExecutionStep} (follows : e.Follows base) (keeps : base.Keeps full free)
    (taken : e.act step = some (.ok e')) :
    ∃ base', (base' = base ∨ ∃ step, base.act step = some (.ok base')) ∧ e'.Follows base' ∧
      ∀ record ∈ e'.unpersisted, record ∈ e.unpersisted ∨ record.1 = base'.log.curBuf := by
  have stays (kept : e'.Follows base ∧ e'.unpersisted = e.unpersisted) :
      ∃ base', (base' = base ∨ ∃ step, base.act step = some (.ok base')) ∧ e'.Follows base' ∧
        ∀ record ∈ e'.unpersisted, record ∈ e.unpersisted ∨ record.1 = base'.log.curBuf :=
    ⟨base, .inl rfl, kept.1, fun record member => .inl (kept.2 ▸ member)⟩
  cases step with
  | whole step =>
    simp only [Execution.act] at taken
    split at taken
    · rename_i may
      obtain ⟨outcome, moved, result⟩ := Option.map_eq_some_iff.mp taken
      cases outcome with
      | error fault => cases result
      | ok state' =>
        cases result
        obtain ⟨base', moved', cur, onward⟩ := follows.whole keeps may moved
        refine ⟨base', .inr ⟨step, moved'⟩, onward _, ?_⟩
        intro record member
        rw [← cur]
        exact mem_after step member
    · cases taken
  | fill producer => exact stays (follows.fill taken)
  | create => exact stays (follows.create taken)
  | store => exact stays (follows.store taken)
  | clear => exact stays (follows.clear taken)
  | finish =>
    obtain ⟨base', moved, onward, records⟩ := follows.finish taken
    exact ⟨base', .inr moved, onward, records⟩

end Execution

end WSlyh.Log
