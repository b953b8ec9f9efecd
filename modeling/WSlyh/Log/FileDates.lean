import WSlyh.Lib.Transition
import WSlyh.Log.LogFile

/-! The dates of the log files. `DecisFile` compares only the day: the file is the right one
as long as no month changes while a file is open. -/

namespace WSlyh.Log

open Libc Lib

/-- A month and a day that a calendar may show. -/
def Date.Valid (date : Date) : Prop := 1 ≤ date.mon ∧ date.mon ≤ 12 ∧ 1 ≤ date.day ∧ date.day ≤ 31

instance (date : Date) : Decidable date.Valid := inferInstanceAs (Decidable (_ ∧ _))

def Date.Le (date later : Date) : Prop :=
  date.year < later.year ∨ date.year = later.year ∧ (date.mon < later.mon ∨
    date.mon = later.mon ∧ date.day ≤ later.day)

instance (date later : Date) : Decidable (date.Le later) := inferInstanceAs (Decidable (_ ∨ _))

theorem Date.Le.trans (first : Date.Le a b) (second : Date.Le b c) : Date.Le a c := by
  unfold Date.Le at *
  omega

theorem Date.Le.refl (date : Date) : date.Le date := by simp [Date.Le]

theorem Date.Le.antisymm (first : Date.Le a b) (second : Date.Le b a) : a = b := by
  cases a
  cases b
  simp only [Date.Le, Date.mk.injEq] at *
  omega

theorem twoDigits_injective (same : twoDigits a = twoDigits b) (low : 0 ≤ a) (high : a < 100) (low' : 0 ≤ b)
    (high' : b < 100) : a = b := by
  obtain ⟨n, rfl⟩ := Int.eq_ofNat_of_zero_le low
  obtain ⟨m, rfl⟩ := Int.eq_ofNat_of_zero_le low'
  have digits (n : Nat) (bound : n < 100) : digitsValue (twoDigits n) = n := by
    interval_cases n <;> rfl
  have values := congrArg digitsValue same
  rw [digits n (by omega), digits m (by omega)] at values
  rw [values]

namespace LogFile

variable {file file' : LogFile} {date date' : Date} {path other : Bytes} {opens : Bool}

theorem logPath_injective (same : file.logPath date = file.logPath date') (valid : date.Valid) (valid' : date'.Valid) :
    date = date' := by
  obtain ⟨monLow, monHigh, dayLow, dayHigh⟩ := valid
  obtain ⟨monLow', monHigh', dayLow', dayHigh'⟩ := valid'
  have dates := List.append_cancel_left (List.append_cancel_right same)
  have ⟨front, days⟩ := List.append_inj' dates (by
    rw [twoDigits_length (by omega) (by omega), twoDigits_length (by omega) (by omega)])
  have ⟨years, mons⟩ := List.append_inj' front (by
    rw [twoDigits_length (by omega) (by omega), twoDigits_length (by omega) (by omega)])
  have year := intText_injective years
  have mon := twoDigits_injective mons (by omega) (by omega) (by omega) (by omega)
  have day := twoDigits_injective days (by omega) (by omega) (by omega) (by omega)
  cases date
  cases date'
  simp_all

/-- A numbered name ends in a digit, an unnumbered one in a letter. -/
theorem numberedPath_ne (file : LogFile) (date date' : Date) (i : Nat) :
    file.numberedPath date i ≠ file.logPath date' := by
  intro same
  have last := congrArg List.getLast? same
  have digits : decimalText i ≠ [] := by
    unfold decimalText
    split
    · simp
    · rename_i positive
      simp [Nat.digits_ne_nil_iff_ne_zero.mpr positive]
  obtain ⟨digit, found⟩ : ∃ digit, (decimalText i).getLast? = some digit := by
    rw [List.getLast?_eq_some_getLast digits]
    exact ⟨_, rfl⟩
  have isDigit := isdigit_of_mem_decimalText (List.mem_of_getLast? found)
  have left : (file.numberedPath date i).getLast? = some digit := by
    rw [numberedPath, ← List.append_assoc, List.getLast?_append, found]
    rfl
  have right : (file.logPath date').getLast? = some 103 := by
    rw [logPath, ← List.append_assoc, List.getLast?_append]
    rfl
  rw [left, right] at last
  rw [Option.some.inj last] at isDigit
  exact absurd isDigit (by decide)

/-- The fields that renaming leaves alone. -/
structure Same (file file' : LogFile) : Prop where
  logPath : file'.logPath = file.logPath
  env : file'.env = file.env
  truncated : file'.truncated = file.truncated
  day : file'.day = file.day
  mon : file'.mon = file.mon

theorem Same.trans {file'' : LogFile} (first : file.Same file') (second : file'.Same file'') : file.Same file'' :=
  ⟨second.logPath.trans first.logPath, second.env.trans first.env, second.truncated.trans first.truncated,
    second.day.trans first.day, second.mon.trans first.mon⟩

/-- What opening a file with mode `w` leaves. -/
structure Opens (file : LogFile) (path : Bytes) (opens : Bool) (file' : LogFile) : Prop where
  fp : file'.fp = if opens then some path else none
  fresh : opens = true → file'.files path = some []
  others : ∀ other, other ≠ path → file'.files other = file.files other
  failed : opens = false → file'.files = file.files
  truncated : (opens = true → (file.files path).getD [] = []) → file'.truncated = file.truncated
  logPath : file'.logPath = file.logPath
  env : file'.env = file.env
  day : file'.day = file.day
  mon : file'.mon = file.mon

theorem fopenCounting_opens (file : LogFile) (path : Bytes) (opens : Bool) (logCnt : Nat) :
    file.Opens path opens (file.fopenCounting path opens logCnt) := by
  cases opens with
  | false => exact ⟨rfl, nofun, fun _ _ => rfl, fun _ => rfl, fun _ => rfl, rfl, rfl, rfl, rfl⟩
  | true =>
    refine ⟨rfl, fun _ => Function.update_self .., fun other differ => Function.update_of_ne differ _ _, nofun,
      fun empty => ?_, rfl, rfl, rfl, rfl⟩
    simp [fopenCounting, fopen, empty rfl]

/-- An open that failed could have been for any name. -/
theorem Opens.of_failed (opened : file.Opens path false file') (other : Bytes) : file.Opens other false file' :=
  ⟨opened.fp, nofun, fun _ _ => congrFun (opened.failed rfl) _, opened.failed, fun _ => opened.truncated nofun,
    opened.logPath, opened.env, opened.day, opened.mon⟩

theorem rename_frame (file : LogFile) (oldPath newPath : Bytes) (notOld : other ≠ oldPath) (notNew : other ≠ newPath) :
    (file.rename oldPath newPath).files other = file.files other := by
  unfold rename
  split
  · rfl
  · simp [notOld, notNew]

theorem rename_source (file : LogFile) (oldPath newPath : Bytes) (differ : oldPath ≠ newPath) :
    (file.rename oldPath newPath).files oldPath = none := by
  unfold rename
  split
  · assumption
  · simp [differ]

theorem rename_same (file : LogFile) (oldPath newPath : Bytes) : file.Same (file.rename oldPath newPath) := by
  unfold rename
  split <;> exact ⟨rfl, rfl, rfl, rfl, rfl⟩

/-- The loop over the numbered files leaves the unnumbered ones alone. -/
theorem renameNumbered_frame (file : LogFile) (date : Date) (count : Nat) :
    file.Same (file.renameNumbered date count) ∧
      ∀ date', (file.renameNumbered date count).files (file.logPath date') = file.files (file.logPath date') := by
  induction count generalizing file with
  | zero => exact ⟨⟨rfl, rfl, rfl, rfl, rfl⟩, fun _ => rfl⟩
  | succ i ih =>
    have same := file.rename_same (file.numberedPath date (i + 1)) (file.numberedPath date (i + 2))
    obtain ⟨same', frame⟩ := ih (file.rename (file.numberedPath date (i + 1)) (file.numberedPath date (i + 2)))
    rw [same.logPath] at frame
    refine ⟨same.trans same', fun date' => ?_⟩
    rw [renameNumbered, frame date']
    exact file.rename_frame _ _ (file.numberedPath_ne date date' (i + 1)).symm
      (file.numberedPath_ne date date' (i + 2)).symm

/-- The four ways of `DecisFile`: the first file, the file of a new day, the rotation of a file
that has grown too large, and no change. -/
theorem decisFile_none (env : file.env = true) (none_ : file.fp = none) (date : Date) (opens : Bool) :
    (file.decisFile date opens).1 = { file with year := date.year, day := date.day, mon := date.mon }.fopenCounting
      (file.logPath date) opens (file.logCnt + 1) := by
  have inside : ¬ (!file.env) = true := by simp [env]
  unfold decisFile
  rw [if_neg inside]
  split
  · rfl
  · rename_i path found
    rw [none_] at found
    cases found

theorem decisFile_first (env : file.env = true) (none_ : file.fp = none) (date : Date) (opens : Bool) :
    { file with year := date.year, day := date.day, mon := date.mon }.Opens (file.logPath date) opens
      (file.decisFile date opens).1 := by
  rw [decisFile_none env none_]
  exact fopenCounting_opens ..

theorem decisFile_day (env : file.env = true) (found : file.fp = some path) (differ : date.day ≠ file.day)
    (opens : Bool) :
    { file with day := date.day }.Opens (file.logPath ⟨file.year, file.mon, date.day⟩) opens
      (file.decisFile date opens).1 := by
  have inside : ¬ (!file.env) = true := by simp [env]
  unfold decisFile
  rw [if_neg inside]
  split
  · rename_i none_
    rw [none_] at found
    cases found
  · rw [if_pos (Ne.symm differ)]
    exact fopenCounting_opens ..

/-- The files just before a rotation opens the new one. -/
def rotated (file : LogFile) (date : Date) : LogFile :=
  (file.renameNumbered date (file.logCnt - 1)).rename (file.logPath date) (file.numberedPath date 1)

theorem rotated_same (file : LogFile) (date : Date) : file.Same (file.rotated date) :=
  (file.renameNumbered_frame date (file.logCnt - 1)).1.trans (rename_same ..)

/-- Before a rotation opens the new file, nothing has its name, and the other unnumbered files
are as they were. -/
theorem rotated_files (file : LogFile) (date : Date) :
    (file.rotated date).files (file.logPath date) = none ∧
      ∀ date', file.logPath date' ≠ file.logPath date →
        (file.rotated date).files (file.logPath date') = file.files (file.logPath date') := by
  constructor
  · exact rename_source _ _ _ (file.numberedPath_ne date date 1).symm
  · intro date' differ
    rw [← (file.renameNumbered_frame date (file.logCnt - 1)).2 date']
    exact rename_frame _ _ _ differ (file.numberedPath_ne date date' 1).symm

theorem rename_logCnt (file : LogFile) (oldPath newPath : Bytes) :
    (file.rename oldPath newPath).logCnt = file.logCnt := by
  unfold rename
  split <;> rfl

theorem rotated_logCnt (file : LogFile) (date : Date) : (file.rotated date).logCnt = file.logCnt := by
  have numbered (count : Nat) : (file.renameNumbered date count).logCnt = file.logCnt := by
    induction count generalizing file with
    | zero => rfl
    | succ i ih =>
      rw [renameNumbered, ih]
      exact rename_logCnt ..
  rw [rotated, rename_logCnt, numbered]

theorem decisFile_large (env : file.env = true) (found : file.fp = some path) (same : date.day = file.day)
    (large : ONELOGFILELIMIT ≤ file.ftell path) (opens : Bool) :
    (file.decisFile date opens).1 = (file.rotated date).fopenCounting (file.logPath date) opens (file.logCnt + 1) := by
  have inside : ¬ (!file.env) = true := by simp [env]
  have stays : ¬ file.day ≠ date.day := fun differ => differ same.symm
  have renamed := (file.renameNumbered_frame date (file.logCnt - 1)).1.logPath
  have numbered : (file.renameNumbered date (file.logCnt - 1)).numberedPath date 1 = file.numberedPath date 1 := by
    rw [numberedPath, numberedPath, renamed]
  have count := file.rotated_logCnt date
  rw [rotated] at count
  unfold decisFile
  rw [if_neg inside]
  split
  · rename_i none_
    rw [none_] at found
    cases found
  · rename_i path' found'
    cases found.symm.trans found'
    rw [if_neg stays, if_pos large]
    dsimp only
    rw [renamed, numbered, (rename_same ..).logPath, renamed, count]
    rfl

theorem decisFile_rotate (env : file.env = true) (found : file.fp = some path) (same : date.day = file.day)
    (large : ONELOGFILELIMIT ≤ file.ftell path) (opens : Bool) :
    (file.rotated date).Opens (file.logPath date) opens (file.decisFile date opens).1 := by
  rw [decisFile_large env found same large]
  exact fopenCounting_opens ..

theorem decisFile_stay (env : file.env = true) (found : file.fp = some path) (same : date.day = file.day)
    (small : file.ftell path < ONELOGFILELIMIT) (opens : Bool) : file.decisFile date opens = (file, true) := by
  simp [decisFile, env, found, same, Nat.not_le.mpr small]

theorem decisFile_opened (file : LogFile) (date : Date) (opens : Bool) :
    (file.decisFile date opens).2 = (file.decisFile date opens).1.fp.isSome := rfl

theorem persist_same (file : LogFile) (bytes : Bytes) :
    file.Same (file.persist bytes) ∧ (file.persist bytes).fp = file.fp := by
  unfold persist
  split <;> exact ⟨⟨rfl, rfl, rfl, rfl, rfl⟩, rfl⟩

/-- What is appended goes to the open file only. -/
theorem persist_frame (file : LogFile) (bytes : Bytes) (differ : file.fp ≠ some other) :
    (file.persist bytes).files other = file.files other := by
  unfold persist
  split
  · rfl
  · rename_i path found
    rw [found] at differ
    exact Function.update_of_ne (fun same => differ (congrArg some same.symm)) _ _

end LogFile

/-- A process that has called `DecisFile`, the last time for `last`, which returned `returned`. -/
structure FileRun where
  file : LogFile
  last : Option Date
  returned : Bool

inductive FileStep
  | decisFile (date : Date) (opens : Bool)
  | persist (bytes : Bytes)

/-- The dates do not go back, and nothing is written after a call that returns false. -/
def FileRun.act (s : FileRun) : FileStep → Option FileRun
  | .decisFile date opens =>
    if date.Valid ∧ ∀ last ∈ s.last, last.Le date then
      some ⟨(s.file.decisFile date opens).1, some date, (s.file.decisFile date opens).2⟩
    else none
  | .persist bytes => if s.returned then some { s with file := s.file.persist bytes } else none

/-- The runs of a process in a directory in which no file has a name of its own. -/
def fileSystem : System FileRun FileStep where
  init s := s.file.env = true ∧ s.file.fp = none ∧ s.file.truncated = [] ∧ s.last = none ∧ s.returned = false ∧
    ∀ date i, s.file.files (s.file.logPath date) = none ∧ s.file.files (s.file.numberedPath date i) = none
  step s step s' := s.act step = some s'

/-- After a call that returned true its file is open, and no call has thrown bytes away. -/
structure FileRun.Right (s : FileRun) : Prop where
  dated : s.returned = true → ∃ date, s.last = some date ∧ s.file.fp = some (s.file.logPath date)
  truncated : s.file.truncated = []

/-- A call that finds a file open goes on to a new day of the month in which the names are
made, or it is made for the date of the open file, or it rotates. -/
def FileRun.SameMonth (s : FileRun) (step : FileStep) : Prop :=
  ∀ date opens path, step = .decisFile date opens → s.file.fp = some path →
    (date.day ≠ s.file.day → opens = true → date.year = s.file.year ∧ date.mon = s.file.mon) ∧
    (date.day = s.file.day → s.file.ftell path < ONELOGFILELIMIT → path = s.file.logPath date)

/-- The file of the date holds nothing. -/
def LogFile.Unwritten (file : LogFile) (date : Date) : Prop := (file.files (file.logPath date)).getD [] = []

/-- What every run keeps in which the months fit: the open file is that of a call so far, and
the files of later dates are unwritten. -/
structure FileRun.Keeps (s : FileRun) : Prop where
  env : s.file.env = true
  truncated : s.file.truncated = []
  opened : ∀ path, s.file.fp = some path → ∃ date last, path = s.file.logPath date ∧ s.last = some last ∧
    date.Valid ∧ date.Le last ∧ s.file.day = date.day ∧ 1 ≤ s.file.mon ∧ s.file.mon ≤ 12 ∧
    ∀ later, later.Valid → date.Le later → later ≠ date → s.file.Unwritten later
  closed : s.file.fp = none → ∀ later, later.Valid → (∀ last ∈ s.last, last.Le later) → s.file.Unwritten later
  dated : s.returned = true → ∃ date, s.last = some date ∧ s.file.fp = some (s.file.logPath date)

namespace FileRun

variable {s s' : FileRun} {date : Date} {opens : Bool}

theorem Keeps.right (keeps : s.Keeps) : s.Right := ⟨keeps.dated, keeps.truncated⟩

/-- Opening the file of a date from which on nothing is written. -/
theorem keeps_of_opens {file file' : LogFile} (opened : file.Opens (file.logPath date) opens file')
    (env : file.env = true) (truncated : file.truncated = []) (valid : date.Valid) (day : file.day = date.day)
    (mon : 1 ≤ file.mon ∧ file.mon ≤ 12)
    (unwritten : ∀ later, later.Valid → date.Le later → file.Unwritten later) :
    Keeps ⟨file', some date, file'.fp.isSome⟩ := by
  have here := Date.Le.refl date
  constructor
  · exact opened.env.trans env
  · exact (opened.truncated fun _ => unwritten date valid here).trans truncated
  · intro path found
    rw [opened.fp] at found
    refine ⟨date, date, ?_, rfl, valid, here, opened.day.trans day, ?_, ?_, ?_⟩
    · rw [opened.logPath]
      cases opens with
      | true => exact (Option.some.inj found).symm
      | false => cases found
    · rw [opened.mon]
      exact mon.1
    · rw [opened.mon]
      exact mon.2
    · intro later validLater after differ
      have names : file.logPath later ≠ file.logPath date := fun same =>
        differ (LogFile.logPath_injective same validLater valid)
      have before := unwritten later validLater after
      rw [LogFile.Unwritten, opened.logPath, opened.others _ names]
      exact before
  · intro none_ later validLater after
    rw [opened.fp] at none_
    cases opens with
    | true => cases none_
    | false =>
      have before := unwritten later validLater (after date rfl)
      rw [LogFile.Unwritten, opened.logPath, opened.failed rfl]
      exact before
  · intro returned
    refine ⟨date, rfl, ?_⟩
    rw [opened.fp] at returned ⊢
    cases opens with
    | true => rw [opened.logPath, if_pos rfl]
    | false => cases returned

theorem Keeps.decisFile (keeps : s.Keeps) (valid : date.Valid) (after : ∀ last ∈ s.last, last.Le date)
    (same : s.SameMonth (.decisFile date opens)) :
    Keeps ⟨(s.file.decisFile date opens).1, some date, (s.file.decisFile date opens).2⟩ := by
  rw [LogFile.decisFile_opened]
  cases found : s.file.fp with
  | none =>
    refine keeps_of_opens (LogFile.decisFile_first keeps.env found date opens) keeps.env keeps.truncated valid rfl
      ⟨valid.1, valid.2.1⟩ fun later validLater afterDate => ?_
    exact keeps.closed found later validLater fun last member => (after last member).trans afterDate
  | some path =>
    obtain ⟨open_, last, rfl, lastCall, openValid, before, day, monLow, monHigh, unwritten⟩ := keeps.opened path found
    have beyond : open_.Le date := before.trans (after last lastCall)
    obtain ⟨newDay, stays⟩ := same date opens _ rfl found
    by_cases sameDay : date.day = s.file.day
    · by_cases large : ONELOGFILELIMIT ≤ s.file.ftell (s.file.logPath open_)
      · have opened := LogFile.decisFile_rotate keeps.env found sameDay large opens
        have renamed := s.file.rotated_same date
        obtain ⟨none_, frame⟩ := s.file.rotated_files date
        rw [← renamed.logPath] at opened
        refine keeps_of_opens opened (renamed.env.trans keeps.env) (renamed.truncated.trans keeps.truncated) valid
          (renamed.day.trans sameDay.symm)
          (by rw [renamed.mon]; exact ⟨monLow, monHigh⟩) fun later validLater afterDate => ?_
        rw [LogFile.Unwritten, renamed.logPath]
        by_cases names : s.file.logPath later = s.file.logPath date
        · rw [names, none_]
          rfl
        · rw [frame later names]
          refine unwritten later validLater (beyond.trans afterDate) fun same => names ?_
          subst same
          rw [beyond.antisymm afterDate]
      · have here := stays sameDay (Nat.lt_of_not_le large)
        rw [LogFile.decisFile_stay keeps.env found sameDay (Nat.lt_of_not_le large)]
        have exact_ := LogFile.logPath_injective here openValid valid
        subst exact_
        refine ⟨keeps.env, keeps.truncated, fun path found' => ?_, fun none_ => ?_, fun _ => ⟨_, rfl, found⟩⟩
        · cases found.symm.trans found'
          exact ⟨open_, open_, rfl, rfl, openValid, .refl open_, day, monLow, monHigh, unwritten⟩
        · rw [found] at none_
          cases none_
    · have opened := LogFile.decisFile_day keeps.env found sameDay opens
      have opened' : { s.file with day := date.day }.Opens (s.file.logPath date) opens
        (s.file.decisFile date opens).1 := by
        cases opens with
        | false => exact opened.of_failed _
        | true =>
          obtain ⟨year, mon⟩ := newDay sameDay rfl
          have names : (⟨s.file.year, s.file.mon, date.day⟩ : Date) = date := by rw [← year, ← mon]
          rw [names] at opened
          exact opened
      refine keeps_of_opens opened' keeps.env keeps.truncated valid rfl ⟨monLow, monHigh⟩
        fun later validLater afterDate => unwritten later validLater (beyond.trans afterDate) ?_
      rintro rfl
      rw [beyond.antisymm afterDate] at day
      exact sameDay day.symm

theorem Keeps.persist (keeps : s.Keeps) (returned : s.returned = true) (bytes : Bytes) :
    Keeps { s with file := s.file.persist bytes } := by
  obtain ⟨same, fp⟩ := s.file.persist_same bytes
  obtain ⟨date, last, found⟩ := keeps.dated returned
  constructor
  · exact same.env.trans keeps.env
  · exact same.truncated.trans keeps.truncated
  · intro path found'
    rw [fp] at found'
    obtain ⟨open_, last, here, lastCall, valid, before, day, monLow, monHigh, unwritten⟩ := keeps.opened path found'
    refine ⟨open_, last, ?_, lastCall, valid, before, same.day.trans day, ?_, ?_,
      fun later validLater after differ => ?_⟩
    · rw [same.logPath]
      exact here
    · rw [same.mon]
      exact monLow
    · rw [same.mon]
      exact monHigh
    · rw [LogFile.Unwritten, same.logPath, LogFile.persist_frame]
      · exact unwritten later validLater after differ
      · intro there
        rw [found', here] at there
        exact differ (LogFile.logPath_injective (Option.some.inj there) valid validLater).symm
  · intro none_
    rw [fp, found] at none_
    cases none_
  · intro _
    refine ⟨date, last, ?_⟩
    rw [fp, same.logPath]
    exact found

theorem Keeps.act (keeps : s.Keeps) (same : s.SameMonth step) (taken : s.act step = some s') : s'.Keeps := by
  cases step with
  | decisFile date opens =>
    simp only [FileRun.act] at taken
    split at taken
    · rename_i admissible
      cases taken
      exact keeps.decisFile admissible.1 admissible.2 same
    · cases taken
  | persist bytes =>
    simp only [FileRun.act] at taken
    split at taken
    · rename_i returned
      cases taken
      exact keeps.persist returned bytes
    · cases taken

theorem reachable_keeps (reachable : fileSystem.Reachable SameMonth s) : s.Keeps := by
  refine reachable.invariant Keeps ?_ fun s step s' keeps same taken => keeps.act same taken
  rintro s ⟨env, closed, truncated, last, returned, unused⟩
  refine ⟨env, truncated, fun path found => ?_, fun _ later _ _ => ?_, fun opened => ?_⟩
  · rw [closed] at found
    cases found
  · rw [LogFile.Unwritten, (unused later 0).1]
    rfl
  · rw [returned] at opened
    cases opened

/-- A call in which the month does not fit leaves a wrong file open. -/
theorem Keeps.sameMonth (keeps : s.Keeps) (taken : s.act (.decisFile date opens) = some s') (right : s'.Right) :
    s.SameMonth (.decisFile date opens) := by
  rintro _ _ path ⟨rfl, rfl⟩ found
  obtain ⟨_, _, _, _, _, _, _, monLow, monHigh, _⟩ := keeps.opened path found
  simp only [FileRun.act] at taken
  split at taken
  · rename_i admissible
    obtain ⟨valid, _⟩ := admissible
    cases taken
    constructor
    · intro differ opens_
      subst opens_
      have opened := LogFile.decisFile_day keeps.env found differ true
      have returned : (s.file.decisFile date true).2 = true := by
        rw [LogFile.decisFile_opened, opened.fp]
        rfl
      obtain ⟨date', lastCall, named⟩ := right.dated returned
      cases lastCall
      have here : LogFile.logPath s.file ⟨s.file.year, s.file.mon, date.day⟩ = s.file.logPath date := by
        rw [opened.fp, opened.logPath] at named
        exact Option.some.inj named
      have dates := LogFile.logPath_injective here ⟨monLow, monHigh, valid.2.2⟩ valid
      exact ⟨(congrArg Date.year dates).symm, (congrArg Date.mon dates).symm⟩
    · intro same small
      have stays := LogFile.decisFile_stay keeps.env found same small opens
      obtain ⟨date', lastCall, named⟩ := right.dated (congrArg Prod.snd stays)
      cases lastCall
      rw [stays, found] at named
      exact Option.some.inj named
  · cases taken

end FileRun

/-- In every run in which the months fit, every call that returns true leaves the file of its
date open, and nothing is overwritten; and in such a run this fails for the next call exactly
when its month does not fit. -/
theorem right_of_reachable (reachable : fileSystem.Reachable FileRun.SameMonth s) :
    s.Right ∧ ∀ date opens s', s.act (.decisFile date opens) = some s' →
      (s'.Right ↔ s.SameMonth (.decisFile date opens)) := by
  have keeps := FileRun.reachable_keeps reachable
  refine ⟨keeps.right, fun date opens s' taken => ⟨keeps.sameMonth taken, fun same => ?_⟩⟩
  exact (keeps.act same taken).right

def FileRun.start : FileRun where
  file := ⟨true, none, 0, 0, 0, 0, ascii "log", ascii "server", 7, fun _ => none, []⟩
  last := none
  returned := false

theorem start_init : fileSystem.init .start := ⟨rfl, rfl, rfl, rfl, rfl, fun _ _ => ⟨rfl, rfl⟩⟩

/-- The file of the first of January is written, and on the second the next one is opened. -/
theorem secondDay_right :
    ∃ s, fileSystem.Run .start [.decisFile ⟨2024, 1, 1⟩ true, .persist [65], .decisFile ⟨2024, 1, 2⟩ true] s ∧
      s.returned = true ∧ s.file.fp = some (s.file.logPath ⟨2024, 1, 2⟩) ∧
      s.Right ∧ ∀ date opens s', s.act (.decisFile date opens) = some s' →
        (s'.Right ↔ s.SameMonth (.decisFile date opens)) := by
  obtain ⟨s₁, s₂, s₃, first, writes, second, year, mon, day, returned, fp⟩ : ∃ s₁ s₂ s₃,
      FileRun.start.act (.decisFile ⟨2024, 1, 1⟩ true) = some s₁ ∧ s₁.act (.persist [65]) = some s₂ ∧
      s₂.act (.decisFile ⟨2024, 1, 2⟩ true) = some s₃ ∧ s₂.file.year = 2024 ∧ s₂.file.mon = 1 ∧ s₂.file.day = 1 ∧
      s₃.returned = true ∧ s₃.file.fp = some (s₃.file.logPath ⟨2024, 1, 2⟩) :=
    ⟨_, _, _, rfl, rfl, rfl, rfl, rfl, rfl, rfl, rfl⟩
  have noFile : FileRun.start.SameMonth (.decisFile ⟨2024, 1, 1⟩ true) := by
    intro _ _ _ _ found
    cases found
  have noCall : s₁.SameMonth (.persist [65]) := by
    rintro _ _ _ ⟨⟩
  have sameMonth : s₂.SameMonth (.decisFile ⟨2024, 1, 2⟩ true) := by
    rintro _ _ _ ⟨rfl, rfl⟩ _
    refine ⟨fun _ _ => ⟨year.symm, mon.symm⟩, fun same => ?_⟩
    rw [day] at same
    cases same
  have reachable := System.Reachable.step
    (.step (.step (.init start_init) noFile first) noCall writes) sameMonth second
  exact ⟨s₃, ⟨s₁, first, s₂, writes, s₃, second, rfl⟩, returned, fp, right_of_reachable reachable⟩

/-- On the first of February the file of the first of January is opened again, and emptied. -/
theorem newMonth_not_right :
    ∃ s, fileSystem.Run .start [.decisFile ⟨2024, 1, 1⟩ true, .persist [65], .decisFile ⟨2024, 1, 31⟩ true,
        .decisFile ⟨2024, 2, 1⟩ true] s ∧
      s.returned = true ∧ s.last = some ⟨2024, 2, 1⟩ ∧ s.file.fp = some (s.file.logPath ⟨2024, 1, 1⟩) ∧
      s.file.truncated = [s.file.logPath ⟨2024, 1, 1⟩] ∧ ¬ s.Right := by
  have checked : (([.decisFile ⟨2024, 1, 1⟩ true, .persist [65], .decisFile ⟨2024, 1, 31⟩ true,
      .decisFile ⟨2024, 2, 1⟩ true] : List FileStep).foldlM FileRun.act .start).any (fun s =>
        s.returned && s.last == some ⟨2024, 2, 1⟩ && s.file.fp == some (s.file.logPath ⟨2024, 1, 1⟩) &&
          s.file.truncated == [s.file.logPath ⟨2024, 1, 1⟩]) = true := by
    decide +kernel
  obtain ⟨s, done, state⟩ := (Option.any_eq_true ..).mp checked
  simp only [Bool.and_eq_true, beq_iff_eq] at state
  obtain ⟨⟨⟨returned, last⟩, fp⟩, truncated⟩ := state
  refine ⟨s, .of_foldlM (fun _ _ _ taken => taken) done, returned, last, fp, truncated, fun right => ?_⟩
  have none_ := right.truncated
  rw [truncated] at none_
  cases none_

end WSlyh.Log
