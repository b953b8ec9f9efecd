import WSlyh.Log.FileDates

/-! The size rotation within one day. The files, read from the highest number down to the one
without a number, hold what has been persisted, whatever opens fail. -/

namespace WSlyh.Log

open Libc Lib

namespace LogFile

variable {file file' : LogFile} {date : Date}

/-- The files with the numbers from the given one down to 1, and then the unnumbered one. -/
def readBack (file : LogFile) (date : Date) : Nat → Bytes
  | 0 => (file.files (file.logPath date)).getD []
  | k + 1 => (file.files (file.numberedPath date (k + 1))).getD [] ++ file.readBack date k

/-- No file has a higher number. -/
def Highest (file : LogFile) (date : Date) (k : Nat) : Prop :=
  ∀ i, k < i → file.files (file.numberedPath date i) = none

/-- None of the renames in the loop over the numbered files replaces a file. -/
def SparesNumbered (file : LogFile) (date : Date) : Nat → Prop
  | 0 => True
  | i + 1 => file.files (file.numberedPath date (i + 2)) = none ∧
      (file.rename (file.numberedPath date (i + 1)) (file.numberedPath date (i + 2))).SparesNumbered date i

/-- None of the renames of a rotation does. -/
def SparesFiles (file : LogFile) (date : Date) : Prop :=
  file.SparesNumbered date (file.logCnt - 1) ∧
    (file.renameNumbered date (file.logCnt - 1)).files (file.numberedPath date 1) = none

theorem numberedPath_injective (same : file.numberedPath date i = file.numberedPath date j) : i = j := by
  have texts := List.append_cancel_left (List.append_cancel_left same)
  rw [← digitsValue_decimalText i, texts, digitsValue_decimalText]

theorem Same.numberedPath (same : file.Same file') : file'.numberedPath = file.numberedPath := by
  funext date i
  rw [LogFile.numberedPath, LogFile.numberedPath, same.logPath]

/-- A file that takes a free name. -/
theorem rename_target (oldPath newPath : Bytes) (free : file.files newPath = none) :
    (file.rename oldPath newPath).files newPath = file.files oldPath := by
  unfold rename
  split
  · rename_i missing
    rw [free, missing]
  · rename_i found
    rw [found]
    exact Function.update_self ..

theorem readBack_succ (unnumbered : (file'.files (file'.logPath date)).getD [] = [])
    (first : file'.files (file'.numberedPath date 1) = file.files (file.logPath date))
    (up : ∀ i, 1 ≤ i → i ≤ k → file'.files (file'.numberedPath date (i + 1)) = file.files (file.numberedPath date i)) :
    file'.readBack date (k + 1) = file.readBack date k := by
  induction k with
  | zero => rw [readBack, readBack, readBack, first, unnumbered, List.append_nil]
  | succ k ih =>
    rw [readBack, ih fun i low high => up i low (Nat.le_succ_of_le high), up (k + 1) (Nat.le_add_left ..) le_rfl]
    rfl

/-- What the unnumbered file gains is read last. -/
theorem readBack_append (same : file'.numberedPath = file.numberedPath)
    (unnumbered : (file'.files (file'.logPath date)).getD [] = (file.files (file.logPath date)).getD [] ++ bytes)
    (numbered : ∀ i, file'.files (file.numberedPath date i) = file.files (file.numberedPath date i)) (k : Nat) :
    file'.readBack date k = file.readBack date k ++ bytes := by
  induction k with
  | zero => exact unnumbered
  | succ k ih => rw [readBack, ih, same, numbered, readBack, List.append_assoc]

theorem readBack_same (same : file'.numberedPath = file.numberedPath)
    (unnumbered : (file'.files (file'.logPath date)).getD [] = (file.files (file.logPath date)).getD [])
    (numbered : ∀ i, file'.files (file.numberedPath date i) = file.files (file.numberedPath date i)) (k : Nat) :
    file'.readBack date k = file.readBack date k := by
  rw [← List.append_nil (file.readBack date k)]
  apply readBack_append same _ numbered
  rw [unnumbered, List.append_nil]

/-- Numbers that no file has do not matter. -/
theorem Highest.readBack (highest : file.Highest date k) (more : k ≤ n) :
    file.readBack date n = file.readBack date k := by
  induction n, more using Nat.le_induction with
  | base => rfl
  | succ n more ih =>
    rw [LogFile.readBack, highest (n + 1) (Nat.lt_succ_of_le more), ih]
    rfl

theorem readBack_eq (highest : file.Highest date k) (highest' : file.Highest date n) :
    file.readBack date n = file.readBack date k := by
  rcases Nat.le_total k n with more | more
  · exact highest.readBack more
  · exact (highest'.readBack more).symm

/-- The numbered files move up by one, and the first number becomes free. -/
structure Shifted (file : LogFile) (date : Date) (count : Nat) (file' : LogFile) : Prop where
  first : file'.files (file.numberedPath date 1) = none
  up : ∀ i, 1 ≤ i → i ≤ count → file'.files (file.numberedPath date (i + 1)) = file.files (file.numberedPath date i)
  above : ∀ i, count + 1 < i → file'.files (file.numberedPath date i) = file.files (file.numberedPath date i)
  spares : file.SparesNumbered date count

theorem renameNumbered_shifted (free : file.files (file.numberedPath date (count + 1)) = none) :
    file.Shifted date count (file.renameNumbered date count) := by
  induction count generalizing file with
  | zero => exact ⟨free, fun i low high => absurd (low.trans high) (Nat.not_succ_le_zero 0), fun _ _ => rfl, trivial⟩
  | succ count ih =>
    have names (i j : Nat) (differ : i ≠ j) : file.numberedPath date i ≠ file.numberedPath date j :=
      fun same => differ (numberedPath_injective same)
    have same := (file.rename_same (file.numberedPath date (count + 1))
      (file.numberedPath date (count + 2))).numberedPath
    have source := file.rename_source _ _ (names (count + 1) (count + 2) (Nat.succ_ne_self _).symm)
    have frame (i : Nat) (notOld : i ≠ count + 1) (notNew : i ≠ count + 2) :=
      file.rename_frame _ _ (names i (count + 1) notOld) (names i (count + 2) notNew)
    obtain ⟨first, up, above, spares⟩ := ih (by rw [same]; exact source)
    rw [same] at first up above
    refine ⟨first, ?_, ?_, free, spares⟩
    · intro i low high
      rcases Nat.lt_or_ge count i with last | lower
      · obtain rfl : i = count + 1 := by omega
        rw [renameNumbered, above (count + 1 + 1) (Nat.lt_succ_self _)]
        exact rename_target _ _ free
      · rw [renameNumbered, up i low lower]
        exact frame i (by omega) (by omega)
    · intro i high
      rw [renameNumbered, above i (by omega)]
      exact frame i (by omega) (by omega)

/-- A rotation shifts all that is read, and replaces nothing. -/
theorem rotated_readBack (counted : 1 ≤ file.logCnt) (highest : file.Highest date (file.logCnt - 1)) :
    (file.rotated date).Highest date file.logCnt ∧
      (file.rotated date).readBack date file.logCnt = file.readBack date (file.logCnt - 1) ∧
      file.SparesFiles date := by
  have shifted := renameNumbered_shifted (highest (file.logCnt - 1 + 1) (Nat.lt_succ_self _))
  have renamed := (file.renameNumbered_frame date (file.logCnt - 1)).2 date
  have same := (file.rotated_same date).numberedPath
  have above : file.logCnt - 1 + 1 = file.logCnt := Nat.sub_add_cancel counted
  have names (i : Nat) (differ : i ≠ 1) : file.numberedPath date i ≠ file.numberedPath date 1 :=
    fun same => differ (numberedPath_injective same)
  have frame (i : Nat) (differ : i ≠ 1) :=
    rename_frame (file.renameNumbered date (file.logCnt - 1)) _ _ (file.numberedPath_ne date date i) (names i differ)
  have first := rename_target (file.logPath date) (file.numberedPath date 1) shifted.first
  refine ⟨?_, ?_, shifted.spares, shifted.first⟩
  · intro i high
    rw [same, rotated, frame i (by omega), shifted.above i (by omega)]
    exact highest i (by omega)
  · rw [← above]
    apply readBack_succ
    · rw [(file.rotated_same date).logPath, (file.rotated_files date).1]
      rfl
    · rw [same, rotated, first]
      exact renamed
    · intro i low high
      rw [same, rotated, frame (i + 1) (by omega)]
      exact shifted.up i low high

end LogFile

/-- The process on one day; `written` is all that it has persisted. -/
structure RotationRun where
  file : LogFile
  written : Bytes
  returned : Bool

/-- `opens` tells whether `fopen` succeeds. -/
inductive RotationStep
  | decisFile (opens : Bool)
  | persist (bytes : Bytes)

/-- Nothing is written after a call that returns false. -/
def RotationRun.act (date : Date) (s : RotationRun) : RotationStep → Option RotationRun
  | .decisFile opens =>
    some { s with file := (s.file.decisFile date opens).1, returned := (s.file.decisFile date opens).2 }
  | .persist bytes =>
    if s.returned then some { s with file := s.file.persist bytes, written := s.written ++ bytes } else none

/-- The runs on one day, in a directory in which none of its names is taken. -/
def rotationSystem (date : Date) : System RotationRun RotationStep where
  init s := s.file.env = true ∧ s.file.fp = none ∧ s.file.logCnt = 0 ∧ s.file.truncated = [] ∧ s.written = [] ∧
    s.returned = false ∧ s.file.files (s.file.logPath date) = none ∧ s.file.Highest date 0
  step s step s' := s.act date step = some s'

/-- The files hold what has been persisted, in order; nothing has been emptied by an `fopen`,
and the next call replaces nothing by a rename. -/
structure RotationRun.Whole (s : RotationRun) (date : Date) : Prop where
  read : ∀ k, s.file.Highest date k → s.file.readBack date k = s.written
  bounded : ∃ k, s.file.Highest date k
  truncated : s.file.truncated = []
  spares : ∀ path, s.file.fp = some path → ONELOGFILELIMIT ≤ s.file.ftell path → s.file.SparesFiles date

/-- What every run keeps. While a file is open `m_iLogCnt` counts it too, and else the
numbered ones only, as after a rotation whose `fopen` failed. -/
structure RotationRun.Keeps (s : RotationRun) (date : Date) : Prop where
  env : s.file.env = true
  truncated : s.file.truncated = []
  closed : s.file.fp = none → s.file.files (s.file.logPath date) = none ∧ s.file.Highest date s.file.logCnt ∧
    s.file.readBack date s.file.logCnt = s.written
  opened : ∀ path, s.file.fp = some path → path = s.file.logPath date ∧ s.file.day = date.day ∧ 1 ≤ s.file.logCnt ∧
    s.file.Highest date (s.file.logCnt - 1) ∧ s.file.readBack date (s.file.logCnt - 1) = s.written
  returned : s.returned = s.file.fp.isSome

namespace RotationRun

variable {s s' : RotationRun} {date : Date}

/-- Opening the unnumbered file where there is none. -/
theorem keeps_of_fopen {file : LogFile} {written : Bytes} (env : file.env = true) (truncated : file.truncated = [])
    (day : file.day = date.day) (free : file.files (file.logPath date) = none)
    (highest : file.Highest date file.logCnt)
    (read : file.readBack date file.logCnt = written) (opens : Bool) :
    let file' := file.fopenCounting (file.logPath date) opens (file.logCnt + 1)
    Keeps ⟨file', written, file'.fp.isSome⟩ date := by
  have opened := file.fopenCounting_opens (file.logPath date) opens (file.logCnt + 1)
  cases opens with
  | false =>
    refine ⟨env, truncated, fun _ => ⟨free, highest, ?_⟩, ?_, rfl⟩
    · apply Eq.trans _ read
      exact @LogFile.readBack_same file (file.fopenCounting (file.logPath date) false (file.logCnt + 1)) date rfl rfl
        (fun _ => rfl) _
    · rintro path ⟨⟩
  | true =>
    refine ⟨env, ?_, nofun, ?_, rfl⟩
    · rw [← truncated]
      apply opened.truncated
      intro _
      rw [free]
      rfl
    · rintro path ⟨⟩
      have numbered (i : Nat) := opened.others _ (file.numberedPath_ne date date i)
      refine ⟨rfl, day, Nat.le_add_left .., ?_, ?_⟩
      · intro i high
        exact (numbered i).trans (highest i high)
      · rw [← read]
        apply LogFile.readBack_same _ _ numbered
        · rfl
        · rw [opened.logPath, opened.fresh rfl, free]
          rfl

theorem Keeps.decisFile (keeps : s.Keeps date) (opens : Bool) :
    Keeps ⟨(s.file.decisFile date opens).1, s.written, (s.file.decisFile date opens).2⟩ date := by
  rw [LogFile.decisFile_opened]
  cases found : s.file.fp with
  | none =>
    obtain ⟨free, highest, read⟩ := keeps.closed found
    rw [LogFile.decisFile_none keeps.env found]
    apply @keeps_of_fopen date { s.file with year := date.year, day := date.day, mon := date.mon } s.written keeps.env
      keeps.truncated rfl free highest
    apply Eq.trans _ read
    exact @LogFile.readBack_same s.file { s.file with year := date.year, day := date.day, mon := date.mon } date
      rfl rfl (fun _ => rfl) _
  | some path =>
    obtain ⟨named, day, counted, highest, read⟩ := keeps.opened path found
    by_cases large : ONELOGFILELIMIT ≤ s.file.ftell path
    · have same := s.file.rotated_same date
      have count := s.file.rotated_logCnt date
      obtain ⟨highest', read', _⟩ := LogFile.rotated_readBack counted highest
      rw [LogFile.decisFile_large keeps.env found day.symm large, ← same.logPath, ← count]
      rw [← count] at highest' read'
      apply keeps_of_fopen (same.env.trans keeps.env) (same.truncated.trans keeps.truncated) (same.day.trans day) _
        highest'
      · rw [read', count]
        exact read
      · rw [same.logPath]
        exact (s.file.rotated_files date).1
    · rw [LogFile.decisFile_stay keeps.env found day.symm (Nat.lt_of_not_le large)]
      exact ⟨keeps.env, keeps.truncated, keeps.closed, keeps.opened, rfl⟩

theorem Keeps.persist (keeps : s.Keeps date) (returned : s.returned = true) (bytes : Bytes) :
    Keeps { s with file := s.file.persist bytes, written := s.written ++ bytes } date := by
  obtain ⟨same, fp⟩ := s.file.persist_same bytes
  obtain ⟨path, found⟩ : ∃ path, s.file.fp = some path := by
    apply Option.isSome_iff_exists.mp
    rw [← keeps.returned]
    exact returned
  obtain ⟨rfl, day, counted, highest, read⟩ := keeps.opened path found
  have count : (s.file.persist bytes).logCnt = s.file.logCnt := by
    unfold LogFile.persist
    split <;> rfl
  have numbered (i : Nat) : (s.file.persist bytes).files (s.file.numberedPath date i) =
      s.file.files (s.file.numberedPath date i) := by
    apply LogFile.persist_frame
    rw [found]
    intro same
    exact s.file.numberedPath_ne date date i (Option.some.inj same).symm
  have written : (s.file.persist bytes).files (s.file.logPath date) =
      some ((s.file.files (s.file.logPath date)).getD [] ++ bytes) := by
    simp only [LogFile.persist, found]
    exact Function.update_self ..
  refine ⟨same.env.trans keeps.env, same.truncated.trans keeps.truncated, ?_, ?_, ?_⟩
  · intro none_
    rw [fp, found] at none_
    cases none_
  · intro path found'
    rw [fp, found] at found'
    cases found'
    rw [count, same.logPath]
    refine ⟨rfl, same.day.trans day, counted, ?_, ?_⟩
    · intro i high
      rw [same.numberedPath, numbered]
      exact highest i high
    · rw [← read]
      apply LogFile.readBack_append same.numberedPath _ numbered
      rw [same.logPath, written]
      rfl
  · rw [fp]
    exact keeps.returned

theorem Keeps.act (keeps : s.Keeps date) (taken : s.act date step = some s') : s'.Keeps date := by
  cases step with
  | decisFile opens =>
    cases taken
    exact keeps.decisFile opens
  | persist bytes =>
    simp only [RotationRun.act] at taken
    split at taken
    · rename_i returned
      cases taken
      exact keeps.persist returned bytes
    · cases taken

theorem Keeps.whole (keeps : s.Keeps date) : s.Whole date := by
  obtain ⟨k, highest, read⟩ : ∃ k, s.file.Highest date k ∧ s.file.readBack date k = s.written := by
    cases found : s.file.fp with
    | none => exact ⟨_, (keeps.closed found).2⟩
    | some path => exact ⟨_, (keeps.opened path found).2.2.2⟩
  refine ⟨?_, ⟨k, highest⟩, keeps.truncated, ?_⟩
  · intro n highest'
    rw [← read]
    exact LogFile.readBack_eq highest highest'
  · intro path found _
    obtain ⟨_, _, counted, highest', _⟩ := keeps.opened path found
    exact (LogFile.rotated_readBack counted highest').2.2

end RotationRun

def RotationRun.start : RotationRun where
  file := ⟨true, none, 0, 0, 0, 0, ascii "log", ascii "server", 7, fun _ => none, []⟩
  written := []
  returned := false

def fullCell : Bytes := List.replicate (30 * 1024 * 1024) 65

theorem length_fullCell : fullCell.length = 30 * 1024 * 1024 := List.length_replicate

namespace RotationRun

variable {s : RotationRun} {date : Date} {n : Nat}

/-- The file of the day is open, the first one, and holds so many full cells. -/
structure Filling (s : RotationRun) (date : Date) (n : Nat) : Prop where
  env : s.file.env = true
  fp : s.file.fp = some (s.file.logPath date)
  day : date.day = s.file.day
  logCnt : s.file.logCnt = 1
  size : s.file.ftell (s.file.logPath date) = n * (30 * 1024 * 1024)
  written : s.written.length = n * (30 * 1024 * 1024)
  returned : s.returned = true

/-- What `Persist` leaves of the file that is open. -/
theorem ftell_persist (found : s.file.fp = some path) (bytes : Bytes) :
    (s.file.persist bytes).ftell path = s.file.ftell path + bytes.length := by
  simp only [LogFile.persist, found, LogFile.ftell, Function.update_self, Option.getD_some, List.length_append]

theorem Filling.persist (filling : s.Filling date n) :
    ∃ s', s.act date (.persist fullCell) = some s' ∧ s'.Filling date (n + 1) := by
  obtain ⟨same, fp⟩ := s.file.persist_same fullCell
  have count : (s.file.persist fullCell).logCnt = s.file.logCnt := by
    unfold LogFile.persist
    split <;> rfl
  refine ⟨_, if_pos filling.returned, same.env.trans filling.env, ?_, filling.day.trans same.day.symm,
    count.trans filling.logCnt, ?_, ?_, filling.returned⟩
  · rw [fp, same.logPath]
    exact filling.fp
  · rw [same.logPath, ftell_persist filling.fp, filling.size, length_fullCell, Nat.add_mul n 1, Nat.one_mul]
  · rw [List.length_append, filling.written, length_fullCell, Nat.add_mul n 1, Nat.one_mul]

/-- The consumer's rounds before the file has reached its limit. -/
theorem Filling.rounds (filling : s.Filling date 0) (n : Nat) (below : n ≤ 34) :
    ∃ s', (rotationSystem date).Run s (List.replicate n [.persist fullCell, .decisFile true]).flatten s' ∧
      s'.Filling date n := by
  induction n with
  | zero => exact ⟨s, rfl, filling⟩
  | succ n ih =>
    obtain ⟨s₁, before, filling₁⟩ := ih (by omega)
    obtain ⟨s₂, writes, filling₂⟩ := filling₁.persist
    have small : s₂.file.ftell (s₂.file.logPath date) < ONELOGFILELIMIT := by
      rw [filling₂.size, ONELOGFILELIMIT]
      omega
    have stays := LogFile.decisFile_stay filling₂.env filling₂.fp filling₂.day small true
    refine ⟨{ s₂ with returned := true }, ?_, { filling₂ with returned := rfl }⟩
    rw [List.replicate_succ', List.flatten_append, List.flatten_singleton]
    apply before.append
    refine ⟨s₂, writes, _, ?_, rfl⟩
    change some { s₂ with file := (s₂.file.decisFile date true).1, returned := (s₂.file.decisFile date true).2 } = _
    rw [stays]

/-- The file has reached its limit. The next `fopen` fails, and the one after that does not. -/
theorem Filling.rotates (filling : s.Filling date 35) :
    ∃ s', (rotationSystem date).Run s [.decisFile false, .decisFile true, .persist [66]] s' ∧ s'.file.logCnt = 2 ∧
      s'.file.fp = some (s'.file.logPath date) ∧ s'.file.ftell (s'.file.logPath date) = 1 ∧
      s'.written.length = 35 * (30 * 1024 * 1024) + 1 := by
  have large : ONELOGFILELIMIT ≤ s.file.ftell (s.file.logPath date) := by
    rw [filling.size, ONELOGFILELIMIT]
    omega
  have moved := LogFile.decisFile_large filling.env filling.fp filling.day large false
  have closes : (s.file.decisFile date false).1 = { s.file.rotated date with fp := none } := moved
  have env : (s.file.rotated date).env = true := (s.file.rotated_same date).env.trans filling.env
  have counts := @LogFile.decisFile_none { s.file.rotated date with fp := none } env rfl date true
  have opened := @LogFile.decisFile_first { s.file.rotated date with fp := none } env rfl date true
  obtain ⟨file, same⟩ :
    ∃ file, file = (LogFile.decisFile { s.file.rotated date with fp := none } date true).1 := ⟨_, rfl⟩
  rw [← same] at counts opened
  have named : file.logPath = (s.file.rotated date).logPath := opened.logPath
  have fp : file.fp = some (file.logPath date) := by
    rw [named]
    exact opened.fp
  have logCnt : file.logCnt = 2 := by
    rw [counts]
    exact congrArg (· + 1) ((s.file.rotated_logCnt date).trans filling.logCnt)
  have fresh : file.ftell (file.logPath date) = 0 := by
    have empty : file.files (file.logPath date) = some [] := by
      rw [named]
      exact opened.fresh rfl
    rw [LogFile.ftell, empty]
    rfl
  refine ⟨⟨file.persist [66], s.written ++ [66], true⟩, ?_, ?_, ?_, ?_, ?_⟩
  · refine ⟨⟨{ s.file.rotated date with fp := none }, s.written, false⟩, ?_, ⟨file, s.written, true⟩, ?_, _, rfl, rfl⟩
    · change some (RotationRun.mk _ _ _) = _
      rw [LogFile.decisFile_opened, closes]
      rfl
    · change some (RotationRun.mk _ _ _) = _
      rw [LogFile.decisFile_opened, ← same, fp]
      rfl
  · simp only [LogFile.persist, fp]
    exact logCnt
  · rw [(file.persist_same [66]).1.logPath, (file.persist_same [66]).2, fp]
  · rw [(file.persist_same [66]).1.logPath, ftell_persist (s := ⟨file, s.written, true⟩) fp, fresh]
    rfl
  · rw [List.length_append, filling.written]
    rfl

end RotationRun

/-- On one day, in every run, the files hold all that has been persisted. -/
theorem whole_of_reachable (reachable : (rotationSystem date).Reachable (fun _ _ => True) s) : s.Whole date := by
  refine (reachable.invariant (RotationRun.Keeps · date) ?_ ?_).whole
  · rintro s ⟨env, closed, count, truncated, written, returned, free, highest⟩
    refine ⟨env, truncated, ?_, ?_, ?_⟩
    · intro _
      rw [count, written]
      refine ⟨free, highest, ?_⟩
      rw [LogFile.readBack, free]
      rfl
    · intro path found
      rw [closed] at found
      cases found
    · rw [returned, closed]
      rfl
  · intro s step s' keeps _ taken
    exact keeps.act taken

/-- Thirty-five full cells go to the file of the day, which is more than it may hold. -/
theorem rotated_whole :
    ∃ s, (rotationSystem ⟨2024, 1, 1⟩).Run .start
        ([.decisFile false, .decisFile true] ++ (List.replicate 34 [.persist fullCell, .decisFile true]).flatten ++
          [.persist fullCell] ++ [.decisFile false, .decisFile true, .persist [66]]) s ∧
      s.file.logCnt = 2 ∧ s.file.ftell (s.file.logPath ⟨2024, 1, 1⟩) = 1 ∧
      s.written.length = 35 * (30 * 1024 * 1024) + 1 ∧ s.Whole ⟨2024, 1, 1⟩ := by
  have start : (rotationSystem ⟨2024, 1, 1⟩).init .start := ⟨rfl, rfl, rfl, rfl, rfl, rfl, rfl, fun _ _ => rfl⟩
  obtain ⟨s₁, done, begun⟩ : ∃ s, ([.decisFile false, .decisFile true] : List RotationStep).foldlM
      (RotationRun.act ⟨2024, 1, 1⟩) .start = some s ∧ s.Filling ⟨2024, 1, 1⟩ 0 :=
    ⟨_, rfl, rfl, rfl, rfl, rfl, rfl, rfl, rfl⟩
  have opens : (rotationSystem ⟨2024, 1, 1⟩).Run .start _ s₁ := .of_foldlM (fun _ _ _ taken => taken) done
  obtain ⟨s₂, rounds, filling₂⟩ := begun.rounds 34 le_rfl
  obtain ⟨s₃, writes, filling₃⟩ := filling₂.persist
  obtain ⟨s₄, rotates, logCnt, _, size, written⟩ := filling₃.rotates
  have last : (rotationSystem ⟨2024, 1, 1⟩).Run s₂ [.persist fullCell] s₃ := ⟨s₃, writes, rfl⟩
  have run := ((opens.append rounds).append last).append rotates
  exact ⟨s₄, run, logCnt, size, written, whole_of_reachable (System.Reachable.run (.init start) run)⟩

end WSlyh.Log
