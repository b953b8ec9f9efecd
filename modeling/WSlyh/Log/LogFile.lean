import Mathlib.Logic.Function.Basic
import WSlyh.Libc

/-! `DecisFile` and the files of the log: their names, the size rotation and the change of the
day. -/

namespace WSlyh.Log

open Libc

def ONELOGFILELIMIT : Nat := 1024 * 1024 * 1024

structure Date where
  year : Int
  mon : Int
  day : Int
  deriving DecidableEq, Repr

/-- The text `%02d` prints. -/
def twoDigits (value : Int) : Bytes := if 0 ≤ value ∧ value < 10 then 48 :: intText value else intText value

theorem twoDigits_length {value : Int} (low : 0 ≤ value) (high : value < 100) : (twoDigits value).length = 2 := by
  unfold twoDigits
  obtain ⟨n, rfl⟩ := Int.eq_ofNat_of_zero_le low
  have bound : n < 100 := by omega
  interval_cases n <;> rfl

/-- The part of the log that `DecisFile` works on, and the files with their contents. `fp` is
the name of the open file. `truncated` are the names that `fopen` with mode `w` has opened
although there were bytes in the file. -/
structure LogFile where
  env : Bool
  fp : Option Bytes
  year : Int
  mon : Int
  day : Int
  logCnt : Nat
  logDir : Bytes
  progName : Bytes
  pid : Nat
  files : Bytes → Option Bytes
  truncated : List Bytes

namespace LogFile

/-- The format `%s/%s.%d%02d%02d.%u.log`. -/
def logPath (file : LogFile) (date : Date) : Bytes :=
  file.logDir ++ ascii "/" ++ file.progName ++ ascii "." ++
    (intText date.year ++ twoDigits date.mon ++ twoDigits date.day) ++
    (ascii "." ++ decimalText file.pid ++ ascii ".log")

/-- The format `%s/%s.%d%02d%02d.%u.log.%d`. -/
def numberedPath (file : LogFile) (date : Date) (i : Nat) : Bytes :=
  file.logPath date ++ (ascii "." ++ decimalText i)

/-- `fopen` with mode `w`. -/
def fopen (file : LogFile) (path : Bytes) (opens : Bool) : LogFile :=
  if opens then { file with
    fp := some path
    files := Function.update file.files path (some [])
    truncated := if (file.files path).getD [] = [] then file.truncated else file.truncated ++ [path] }
  else { file with fp := none }

/-- `fopen`, and the new `m_iLogCnt` where it succeeds. -/
def fopenCounting (file : LogFile) (path : Bytes) (opens : Bool) (logCnt : Nat) : LogFile :=
  let file := file.fopen path opens
  if file.fp.isSome then { file with logCnt } else file

/-- It fails where the source does not exist, and replaces the target otherwise. -/
def rename (file : LogFile) (oldPath newPath : Bytes) : LogFile :=
  match file.files oldPath with
  | none => file
  | some content => { file with
      files := Function.update (Function.update file.files oldPath none) newPath (some content) }

/-- The loop that renames the numbered files, from the last one down to the first. -/
def renameNumbered (file : LogFile) (date : Date) : Nat → LogFile
  | 0 => file
  | i + 1 => (file.rename (file.numberedPath date (i + 1)) (file.numberedPath date (i + 2))).renameNumbered date i

/-- `ftell`. The file has been opened with mode `w`, and only `Persist` writes to it. -/
def ftell (file : LogFile) (path : Bytes) : Nat := ((file.files path).getD []).length

/-- `DecisFile`, where `opens` tells whether `fopen` succeeds. -/
def decisFile (file : LogFile) (date : Date) (opens : Bool) : LogFile × Bool :=
  let file :=
    if !file.env then file.fopen (ascii "/null") opens
    else
      match file.fp with
      | none =>
        let file := { file with year := date.year, day := date.day, mon := date.mon }
        file.fopenCounting (file.logPath ⟨file.year, file.mon, file.day⟩) opens (file.logCnt + 1)
      | some path =>
        if file.day ≠ date.day then
          let file := { file with day := date.day }
          file.fopenCounting (file.logPath ⟨file.year, file.mon, file.day⟩) opens 1
        else if file.ftell path ≥ ONELOGFILELIMIT then
          let file := file.renameNumbered date (file.logCnt - 1)
          let file := file.rename (file.logPath date) (file.numberedPath date 1)
          file.fopenCounting (file.logPath date) opens (file.logCnt + 1)
        else file
  (file, file.fp.isSome)

/-- `Persist` and `fflush`, when `fwrite` takes it all. -/
def persist (file : LogFile) (bytes : Bytes) : LogFile :=
  match file.fp with
  | none => file
  | some path => { file with
      files := Function.update file.files path (some ((file.files path).getD [] ++ bytes)) }

end LogFile

end WSlyh.Log
