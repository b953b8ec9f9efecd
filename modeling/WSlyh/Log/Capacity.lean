import WSlyh.Lib.Transition
import WSlyh.Log.Filling

/-! The memory of the log. The ring takes one more cell only while its cells stay under the limit,
and the 32 bit product that is compared with the limit never wraps. -/

namespace WSlyh.Log

open Libc Lib

/-- What `LOG_MEM_SET` leaves in `m_uOneBuffLen`. -/
def logMemSet (memLmt : Int) : Nat :=
  if memLmt < 10 * 1024 * 1024 then 10 * 1024 * 1024
  else if memLmt > 50 * 1024 * 1024 then 50 * 1024 * 1024
  else memLmt.toNat

theorem logMemSet_le (memLmt : Int) : logMemSet memLmt ≤ 50 * 1024 * 1024 := by
  unfold logMemSet
  split
  · simp
  · split <;> omega

theorem le_logMemSet (memLmt : Int) : 10 * 1024 * 1024 ≤ logMemSet memLmt := by
  unfold logMemSet
  split
  · simp
  · split <;> omega

/-- Every length between 10 MB and 50 MB is set by some call. -/
theorem logMemSet_self {oneBuffLen : Nat} (least : 10 * 1024 * 1024 ≤ oneBuffLen)
    (most : oneBuffLen ≤ 50 * 1024 * 1024) :
    logMemSet oneBuffLen = oneBuffLen := by
  have notLess : ¬ (oneBuffLen : Int) < 10 * 1024 * 1024 := by omega
  have notMore : ¬ (oneBuffLen : Int) > 50 * 1024 * 1024 := by omega
  rw [logMemSet, if_neg notLess, if_neg notMore, Int.toNat_natCast]

/-- The constructor has run with a length that `LOG_MEM_SET` has set before. -/
def CRingLog.Sized (log : CRingLog) : Prop := log.Constructed ∧ ∃ memLmt, log.oneBuffLen = logMemSet memLmt

/-- `product`: the comparison with the limit is made on the exact product, of an `int` that is exact too. -/
structure CRingLog.Capped (log : CRingLog) : Prop where
  count : log.buffCnt + 1 < 2 ^ 31
  product : log.oneBuffLen * (log.buffCnt + 1) % 2 ^ 32 = log.oneBuffLen * (log.buffCnt + 1)
  limit : log.oneBuffLen * log.buffCnt ≤ LOGFILEMEMLIMIT

/-- A producer with a record of any length passes the throttle. -/
def LogState.enters (s : LogState) : LogStep → Option LogState
  | .enter producer curSec logLine =>
    if s.producers producer = .idle ∧ ¬ s.log.throttled curSec then
      some (s.setProducer producer (.passed curSec logLine))
    else none
  | _ => none

/-- The runs in which a record may also be longer than a cell. -/
def anyRecordSystem (start : CRingLog → Prop) : System LogState LogStep where
  init s := ∃ log, start log ∧ s = .start log
  step s step s' := s.act step = some (.ok s') ∨ s.enters step = some s'

/-- All that a section does to the size of the ring: nothing, or one more cell that the limit admits. -/
structure CRingLog.Extends (log log' : CRingLog) : Prop where
  oneBuffLen : log'.oneBuffLen = log.oneBuffLen
  buffCnt : log'.buffCnt = log.buffCnt ∨ log'.buffCnt = log.buffCnt + 1 ∧ log.overLimit = false

namespace CRingLog

variable {log log' : CRingLog} {curSec : Nat} {logLine : Bytes} {allocation : Allocation} {flag : Bool}

theorem Extends.of_eq (oneBuffLen : log'.oneBuffLen = log.oneBuffLen) (buffCnt : log'.buffCnt = log.buffCnt) :
    log.Extends log' :=
  ⟨oneBuffLen, .inl buffCnt⟩

theorem moveOn_extends (done : log.moveOn curSec allocation = .ok log') : log.Extends log' := by
  unfold moveOn at done
  split at done
  · cases done
  · rename_i nextBuf next
    split at done
    · split at done
      · cases done
        exact .of_eq rfl rfl
      · rename_i admitted
        obtain ⟨⟨shm, made⟩, _, rest⟩ := bind_eq_ok.mp done
        cases made with
        | none => cases rest
        | some newBuffer =>
          cases rest
          exact ⟨rfl, .inr ⟨rfl, Bool.eq_false_of_not_eq_true admitted⟩⟩
    · cases done
      exact .of_eq rfl rfl

theorem appendLocked_extends (done : log.appendLocked curSec logLine allocation = .ok (log', flag)) :
    log.Extends log' := by
  unfold appendLocked at done
  split at done
  · cases done
    exact .of_eq rfl rfl
  · split at done
    · obtain ⟨moved, moves, rest⟩ := bind_eq_ok.mp done
      -- filling the cell leaves the size alone, so it grows from here as from `log`
      have extended : log.Extends moved := ⟨(moveOn_extends moves).oneBuffLen, (moveOn_extends moves).buffCnt⟩
      split at rest
      · cases rest
        exact ⟨extended.oneBuffLen, extended.buffCnt⟩
      · cases rest
        exact extended
    · cases done
      exact .of_eq rfl rfl

theorem checkLocked_extends (done : log.checkLocked = .ok (log', flag)) : log.Extends log' := by
  unfold checkLocked at done
  split at done
  · cases done
    exact .of_eq rfl rfl
  · split at done
    · split at done
      · cases done
      · simp only at done
        split at done
        · cases done
        · cases done
          exact .of_eq rfl rfl
    · cases done
      exact .of_eq rfl rfl

theorem clearLocked_extends (done : log.clearLocked = .ok log') : log.Extends log' := by
  simp only [clearLocked] at done
  split at done
  · cases done
  · cases done
    exact .of_eq rfl rfl

end CRingLog

namespace LogState

variable {s s' : LogState} {step : LogStep}

/-- What every reachable state keeps. -/
structure Small (s : LogState) : Prop where
  least : 10 * 1024 * 1024 ≤ s.log.oneBuffLen
  most : s.log.oneBuffLen ≤ 50 * 1024 * 1024
  limit : s.log.oneBuffLen * s.log.buffCnt ≤ LOGFILEMEMLIMIT

theorem act_extends (taken : s.act step = some (.ok s')) : s.log.Extends s'.log := by
  cases step with
  | enter producer curSec logLine =>
    simp only [act] at taken
    split at taken
    · split at taken
      · cases taken
        exact .of_eq rfl rfl
      · cases taken
        exact .of_eq rfl rfl
    · cases taken
  | unthrottle producer =>
    simp only [act] at taken
    split at taken
    · cases taken
      exact .of_eq rfl rfl
    · cases taken
  | append producer =>
    simp only [act] at taken
    split at taken
    · obtain ⟨⟨log, accepted⟩, done, rest⟩ := bind_eq_ok.mp (Option.some.inj taken)
      cases rest
      exact CRingLog.appendLocked_extends done
    · cases taken
  | check =>
    simp only [act] at taken
    split at taken
    · obtain ⟨⟨log, go⟩, done, rest⟩ := bind_eq_ok.mp (Option.some.inj taken)
      cases rest
      exact CRingLog.checkLocked_extends done
    · cases taken
  | persist opened =>
    simp only [act] at taken
    split at taken
    · split at taken
      · cases taken
        exact .of_eq rfl rfl
      · cases taken
        exact .of_eq rfl rfl
    · cases taken
  | clear =>
    simp only [act] at taken
    split at taken
    · obtain ⟨log, done, rest⟩ := bind_eq_ok.mp (Option.some.inj taken)
      cases rest
      exact CRingLog.clearLocked_extends done
    · cases taken

theorem enters_extends (taken : s.enters step = some s') : s.log.Extends s'.log := by
  unfold enters at taken
  split at taken
  · split at taken
    · cases taken
      exact .of_eq rfl rfl
    · cases taken
  · cases taken

/-- One cell more than the limit admits is still far from 2^32. -/
theorem Small.product (small : s.Small) :
    s.log.oneBuffLen * (s.log.buffCnt + 1) % 2 ^ 32 = s.log.oneBuffLen * (s.log.buffCnt + 1) := by
  have limit := small.limit
  have most := small.most
  rw [Nat.mul_succ]
  apply Nat.mod_eq_of_lt
  unfold LOGFILEMEMLIMIT at limit
  omega

/-- The comparison of `TryAppendLog` tells what it is meant to tell. -/
theorem Small.overLimit_iff (small : s.Small) :
    s.log.overLimit = true ↔ LOGFILEMEMLIMIT < s.log.oneBuffLen * (s.log.buffCnt + 1) := by
  rw [CRingLog.overLimit, small.product, decide_eq_true_iff]

theorem Small.extends (small : s.Small) (grows : s.log.Extends s'.log) : s'.Small := by
  refine ⟨grows.oneBuffLen ▸ small.least, grows.oneBuffLen ▸ small.most, ?_⟩
  rw [grows.oneBuffLen]
  rcases grows.buffCnt with same | ⟨more, admitted⟩
  · rw [same]
    exact small.limit
  · rw [more]
    have under := small.overLimit_iff.not.mp (Bool.not_eq_true _ ▸ admitted)
    exact Nat.le_of_not_lt under

theorem Small.capped (small : s.Small) : s.log.Capped := by
  refine ⟨?_, small.product, small.limit⟩
  have cells := (Nat.mul_le_mul_right s.log.buffCnt small.least).trans small.limit
  unfold LOGFILEMEMLIMIT at cells
  omega

theorem start_small {log : CRingLog} (sized : log.Sized) : (start log).Small := by
  obtain ⟨constructed, memLmt, size⟩ := sized
  obtain ⟨_, _, _, _, _, _, _, built⟩ := constructed.built
  have least := le_logMemSet memLmt
  have most := logMemSet_le memLmt
  rw [← size] at least most
  refine ⟨least, most, ?_⟩
  show log.oneBuffLen * log.buffCnt ≤ LOGFILEMEMLIMIT
  rw [built.buffCnt]
  unfold LOGFILEMEMLIMIT
  omega

theorem reachable_small (reachable : (anyRecordSystem CRingLog.Sized).Reachable allowed s) : s.Small := by
  refine reachable.invariant Small ?_ ?_
  · rintro s ⟨log, sized, rfl⟩
    exact start_small sized
  · rintro s step s' small _ (taken | taken)
    · exact small.extends (act_extends taken)
    · exact small.extends (enters_extends taken)

end LogState

/-- Whatever producers and consumer do, the cells of the ring stay under the limit. -/
theorem capped_of_reachable (reachable : (anyRecordSystem CRingLog.Sized).Reachable (fun _ _ => True) s) :
    s.log.Capped :=
  (LogState.reachable_small reachable).capped

theorem overflowed_capped :
    ∃ log s, CRingLog.create .empty none 0 (30 * 1024 * 1024) .succeeds .succeeds .succeeds = .ok (some log) ∧
      (anyRecordSystem CRingLog.Sized).Run (.start log) overflowSteps s ∧ s.log.buffCnt = 102 ∧
      s.persisted.length = 30 * 1024 * 1024 ∧ s.log.Capped := by
  obtain ⟨log, done, size, _, _, _, _, _, _, built⟩ := CRingLog.construct_built .empty (30 * 1024 * 1024)
  have sized : log.Sized :=
    ⟨⟨.empty, none, 0, 30 * 1024 * 1024, done⟩, _, size.trans (logMemSet_self (by decide) (by decide)).symm⟩
  obtain ⟨s, run, overflowed⟩ := LogState.overflow_run CRingLog.Sized built size
  have initial : (anyRecordSystem CRingLog.Sized).Reachable (fun _ _ => True) (.start log) := .init ⟨log, sized, rfl⟩
  have run' : (anyRecordSystem CRingLog.Sized).Run (.start log) overflowSteps s :=
    run.mono fun _ _ _ taken => Or.inl taken
  exact ⟨log, s, done, run', overflowed.buffCnt, overflowed.persisted, capped_of_reachable (initial.run run')⟩

end WSlyh.Log
