import WSlyh.Log.RingLog

/-! The text of a record: `logLine`, and how much of it `TryAppendLog` hands to `Append`. -/

namespace WSlyh.Log

open Libc

def ONELOGLEN : Nat := 4 * 1024

/-- The format `%s[%s.%03d]`. -/
def linePrefix (lvl timeCache : Bytes) (tMs : Int) : Bytes :=
  lvl ++ ascii "[" ++ timeCache ++ ascii "." ++ paddedText 3 tMs ++ ascii "]"

/-- `logLine` after both calls, and `logLen`, where the second call prints `text`. There is no
result when the second call is not given an address in `logLine`, or right behind it. -/
def formatLine (lvl timeCache : Bytes) (tMs : Int) (text : Bytes) : Option (Bytes × Nat) :=
  let first := linePrefix lvl timeCache tMs
  let logLine := snprintf (List.replicate ONELOGLEN 0) 0 ONELOGLEN first
  let preLen := printed first
  if 0 ≤ preLen ∧ preLen ≤ ONELOGLEN then
    let logLine := snprintf logLine preLen.toNat (sizeT (ONELOGLEN - preLen)) text
    let postLen := printed text
    some (logLine, ((preLen + postLen) % 2 ^ 32).toNat)
  else none

/-- The bytes that `Append` copies, where `behind` is the memory behind `logLine`. -/
def handed (logLine : Bytes) (behind : Nat → UInt8) (logLen : Nat) : Bytes :=
  logLine.take logLen ++ (List.range (logLen - logLine.length)).map behind

/-- One call of `TryAppendLog` with nothing between its throttle and its locked section; `none`
where the behaviour of the call is undefined. -/
def CRingLog.tryAppendLog (log : CRingLog) (lvl timeCache : Bytes) (curSec : Nat) (tMs : Int) (text : Bytes)
    (behind : Nat → UInt8) (allocation : Allocation) : Option (Except Fault (CRingLog × Bool)) :=
  if log.throttled curSec then some (.ok (log, false))
  else (formatLine lvl timeCache tMs text).map fun (logLine, logLen) =>
    { log with lastLogFailTime := 0 }.appendLocked curSec (handed logLine behind logLen) allocation

/-- What `Append` is handed lies in `logLine` and is the formatted text, cut where it is too long. -/
def LineFits (lvl timeCache : Bytes) (tMs : Int) (text : Bytes) : Prop :=
  ∃ logLine logLen, formatLine lvl timeCache tMs text = some (logLine, logLen) ∧ logLen < ONELOGLEN ∧
    ∀ behind, handed logLine behind logLen = (linePrefix lvl timeCache tMs ++ text).take (ONELOGLEN - 1)

theorem handed_inside {logLine : Bytes} (inside : logLen ≤ logLine.length) (behind : Nat → UInt8) :
    handed logLine behind logLen = logLine.take logLen := by
  rw [handed, Nat.sub_eq_zero_of_le inside, List.range_zero, List.map_nil, List.append_nil]

section Format

variable {lvl timeCache text : Bytes} {tMs : Int}

theorem prefix_nonempty : 0 < (linePrefix lvl timeCache tMs).length := by
  simp [linePrefix, ascii]

/-- After both calls the line holds the text as far as there is room, and a null byte. -/
theorem formatLine_short (short : (linePrefix lvl timeCache tMs).length < ONELOGLEN) :
    ∃ logLine rest, formatLine lvl timeCache tMs text =
        some (logLine, (((linePrefix lvl timeCache tMs).length + printed text) % 2 ^ 32).toNat) ∧
      logLine = (linePrefix lvl timeCache tMs ++ text).take (ONELOGLEN - 1) ++ 0 :: rest ∧
      logLine.length = ONELOGLEN := by
  have small : ONELOGLEN = 4096 := rfl
  have limit : INT_MAX = 2147483647 := rfl
  generalize sized : linePrefix lvl timeCache tMs = first at short ⊢
  have preLen : printed first = first.length := printed_short (by omega)
  have size : sizeT (ONELOGLEN - (first.length : Int)) = ONELOGLEN - first.length := by
    have same := sizeT_eq (ONELOGLEN - (first.length : Int)) (by omega) (by omega)
    omega
  obtain ⟨rest₁, line₁⟩ := snprintf_eq (List.replicate ONELOGLEN 0) 0 ONELOGLEN first (by omega)
  have length₁ := length_snprintf (List.replicate ONELOGLEN 0) 0 ONELOGLEN first (by simp)
  rw [List.length_replicate] at length₁
  obtain ⟨rest₂, line₂⟩ := snprintf_eq (snprintf (List.replicate ONELOGLEN 0) 0 ONELOGLEN first) first.length
    (ONELOGLEN - first.length) text (by omega)
  have length₂ := length_snprintf (snprintf (List.replicate ONELOGLEN 0) 0 ONELOGLEN first) first.length
    (ONELOGLEN - first.length) text (by omega)
  refine ⟨_, rest₂, ?_, ?_, length₂.trans length₁⟩
  · have inside : 0 ≤ (first.length : Int) ∧ (first.length : Int) ≤ ONELOGLEN := by omega
    simp only [formatLine, sized, preLen, if_pos inside, size, Int.toNat_natCast]
  · have whole : first.take (ONELOGLEN - 1) = first := List.take_of_length_le (by omega)
    have kept : (snprintf (List.replicate ONELOGLEN 0) 0 ONELOGLEN first).take first.length = first := by
      rw [line₁, whole, List.take_zero, List.nil_append, List.take_left]
    have cut : (first ++ text).take (ONELOGLEN - 1) = first ++ text.take (ONELOGLEN - first.length - 1) := by
      rw [List.take_append, whole, Nat.sub_right_comm]
    rw [line₂, kept, cut]

theorem lineFits_short (short : (linePrefix lvl timeCache tMs).length < ONELOGLEN) :
    LineFits lvl timeCache tMs text ↔ (linePrefix lvl timeCache tMs).length + text.length < ONELOGLEN := by
  have small : ONELOGLEN = 4096 := rfl
  have limit : INT_MAX = 2147483647 := rfl
  have nonempty := @prefix_nonempty lvl timeCache tMs
  obtain ⟨logLine, rest, formatted, line, sized⟩ := @formatLine_short _ _ text _ short
  have taken : ((linePrefix lvl timeCache tMs ++ text).take (ONELOGLEN - 1)).length =
      min (ONELOGLEN - 1) ((linePrefix lvl timeCache tMs).length + text.length) := by
    rw [List.length_take, List.length_append]
  constructor
  · rintro ⟨logLine', logLen, formatted', below, copies⟩
    cases formatted.symm.trans formatted'
    have copied := congrArg List.length (copies fun _ => 0)
    rw [handed_inside (by omega), List.length_take, taken] at copied
    by_cases fits : text.length ≤ INT_MAX
    · rw [printed_short fits] at below copied
      omega
    · rw [printed_long (Nat.not_le.mp fits)] at below copied
      omega
  · intro fits
    have printed : printed text = text.length := printed_short (by omega)
    have logLen : (((linePrefix lvl timeCache tMs).length + (text.length : Int)) % 2 ^ 32).toNat =
        (linePrefix lvl timeCache tMs).length + text.length := by omega
    rw [printed, logLen] at formatted
    refine ⟨_, _, formatted, fits, ?_⟩
    intro behind
    rw [handed_inside (by omega), line, List.take_append_of_le_length (by omega), List.take_of_length_le (by omega)]

/-- A prefix as long as the line leaves no room, and one that is longer leads out of it. -/
theorem lineFits_long (long : ONELOGLEN ≤ (linePrefix lvl timeCache tMs).length) :
    LineFits lvl timeCache tMs text ↔ (linePrefix lvl timeCache tMs).length = ONELOGLEN ∧ INT_MAX < text.length := by
  have small : ONELOGLEN = 4096 := rfl
  have limit : INT_MAX = 2147483647 := rfl
  by_cases brim : (linePrefix lvl timeCache tMs).length = ONELOGLEN
  · obtain ⟨rest, line⟩ :=
      snprintf_eq (List.replicate ONELOGLEN 0) 0 ONELOGLEN (linePrefix lvl timeCache tMs) (by omega)
    have sized := length_snprintf (List.replicate ONELOGLEN 0) 0 ONELOGLEN (linePrefix lvl timeCache tMs) (by simp)
    rw [List.length_replicate] at sized
    have formatted : formatLine lvl timeCache tMs text =
        some (snprintf (List.replicate ONELOGLEN 0) 0 ONELOGLEN (linePrefix lvl timeCache tMs),
          ((ONELOGLEN + printed text) % 2 ^ 32).toNat) := by
      have preLen : printed (linePrefix lvl timeCache tMs) = ONELOGLEN := by
        rw [printed_short (by omega), brim]
      have none : sizeT ((ONELOGLEN : Int) - ONELOGLEN) = 0 := by rw [Int.sub_self]; rfl
      simp only [formatLine, preLen, none]
      rw [if_pos (by omega)]
      simp [snprintf]
    constructor
    · rintro ⟨logLine, logLen, formatted', below, _⟩
      cases formatted.symm.trans formatted'
      refine ⟨brim, ?_⟩
      by_contra short
      rw [printed_short (Nat.not_lt.mp short)] at below
      omega
    · rintro ⟨_, long⟩
      rw [printed_long long] at formatted
      refine ⟨_, _, formatted, by omega, ?_⟩
      intro behind
      have cut : ((ONELOGLEN + (-1 : Int)) % 2 ^ 32).toNat = ONELOGLEN - 1 := by omega
      rw [cut, handed_inside (by omega), line, List.take_zero, List.nil_append,
        List.take_append_of_le_length (by rw [List.length_take]; omega), List.take_append_of_le_length (by omega),
        List.take_take, min_self]
  · have outside : ¬ (0 ≤ printed (linePrefix lvl timeCache tMs) ∧
        printed (linePrefix lvl timeCache tMs) ≤ ONELOGLEN) := by
      unfold printed
      split <;> omega
    constructor
    · rintro ⟨logLine, logLen, formatted, _⟩
      simp only [formatLine, if_neg outside, reduceCtorEq] at formatted
    · rintro ⟨same, _⟩
      exact absurd same brim

/-- `Append` gets the text, and only that, exactly when the text is shorter than the line. A
prefix that fills the line is cut as it should be when `vsnprintf` fails. -/
theorem lineFits_iff : LineFits lvl timeCache tMs text ↔
    (linePrefix lvl timeCache tMs).length + text.length < ONELOGLEN ∨
      ((linePrefix lvl timeCache tMs).length = ONELOGLEN ∧ INT_MAX < text.length) := by
  by_cases short : (linePrefix lvl timeCache tMs).length < ONELOGLEN
  · rw [lineFits_short short]
    omega
  · rw [lineFits_long (by omega)]
    omega

end Format

/-- A text that fits reaches the ring as it is. -/
theorem tryAppendLog_fits {log : CRingLog} {curSec : Nat}
    (fits : (linePrefix lvl timeCache tMs).length + text.length < ONELOGLEN) (open_ : log.throttled curSec = false)
    (behind : Nat → UInt8) (allocation : Allocation) :
    log.tryAppendLog lvl timeCache curSec tMs text behind allocation =
      some ({ log with lastLogFailTime := 0 }.appendLocked curSec
        (linePrefix lvl timeCache tMs ++ text) allocation) := by
  have short : (linePrefix lvl timeCache tMs).length < ONELOGLEN := by omega
  obtain ⟨logLine, logLen, formatted, _, copies⟩ := (lineFits_short short).mpr fits
  have whole : (linePrefix lvl timeCache tMs ++ text).take (ONELOGLEN - 1) = linePrefix lvl timeCache tMs ++ text := by
    apply List.take_of_length_le
    rw [List.length_append]
    omega
  rw [CRingLog.tryAppendLog, open_, formatted, ← whole, ← copies behind]
  rfl

/-- The record of a worker that has 5000 bytes of a client to log. -/
theorem trace_not_lineFits :
    ¬ LineFits (ascii "[TRACE]") (ascii "2024-01-01 00:00:00") 0 (List.replicate 5000 65) := by
  have short : (linePrefix (ascii "[TRACE]") (ascii "2024-01-01 00:00:00") 0).length < ONELOGLEN := by decide
  intro fits
  have below := (lineFits_short short).mp fits
  rw [List.length_replicate, ONELOGLEN] at below
  omega

end WSlyh.Log
