import WSlyh.Lib.Transition
import WSlyh.Log.LogFile

/-! The clock of the log. It keeps the text of the time, and as long as the minute is the same
it changes only the last two digits of it. -/

namespace WSlyh.Log

open Libc Lib

/-- What `gettimeofday` returns, with no negative part. -/
structure Timeval where
  sec : Nat
  usec : Nat
  deriving DecidableEq, Repr

/-- What `localtime_r` fills in. -/
structure Tm where
  year : Int
  mon : Int
  mday : Int
  hour : Int
  min : Int
  sec : Int
  deriving DecidableEq, Repr

/-- `aTimeCache` are the 20 bytes of the array. -/
structure UTC_Time where
  aTimeCache : Bytes
  year : Int
  month : Int
  day : Int
  hour : Int
  minute : Int
  sec : Int
  cacheSec : Nat
  cacheMin : Nat

namespace UTC_Time

/-- The format `%04d-%02d-%02d %02d:%02d:%02d`. -/
def timeText (tm : UTC_Time) : Bytes :=
  paddedText 4 tm.year ++ ascii "-" ++ twoDigits tm.month ++ ascii "-" ++ twoDigits tm.day ++ ascii " " ++
    twoDigits tm.hour ++ ascii ":" ++ twoDigits tm.minute ++ ascii ":" ++ twoDigits tm.sec

def addTimeAll (tm : UTC_Time) : UTC_Time :=
  { tm with aTimeCache := snprintf tm.aTimeCache 0 20 tm.timeText }

def addTimeSec (tm : UTC_Time) : UTC_Time :=
  { tm with aTimeCache := snprintf tm.aTimeCache 17 3 (twoDigits tm.sec) }

def updateTime (localtime : Nat → Tm) (tm : UTC_Time) (tt : Timeval) : UTC_Time :=
  let cur_tm := localtime tt.sec
  { tm with
    cacheSec := tt.sec
    cacheMin := tt.sec / 60
    year := cur_tm.year + 1900
    month := cur_tm.mon + 1
    day := cur_tm.mday
    hour := cur_tm.hour
    minute := cur_tm.min
    sec := cur_tm.sec }

/-- The constructor, in memory that holds anything. -/
def create (localtime : Nat → Tm) (memory : UTC_Time) (tt : Timeval) : UTC_Time :=
  (memory.updateTime localtime tt).addTimeAll

/-- `GetCurTime`, with the second it returns and the number it stores in `p_msec`. -/
def getCurTime (localtime : Nat → Tm) (tm : UTC_Time) (tv : Timeval) : UTC_Time × Nat × Nat :=
  let msec := tv.usec / 1000
  let tm :=
    if tv.sec ≠ tm.cacheSec then
      let tm := { tm with cacheSec := tv.sec }
      if tm.cacheSec / 60 = tm.cacheMin then { tm with sec := ((tm.cacheSec % 60 : Nat) : Int) }.addTimeSec
      else (tm.updateTime localtime tv).addTimeAll
    else tm
  (tm, tm.cacheSec, msec)

/-- The fields are those of `localtime_r`. -/
structure Shows (localtime : Nat → Tm) (tm : UTC_Time) (tt : Timeval) : Prop where
  cacheSec : tm.cacheSec = tt.sec
  year : tm.year = (localtime tt.sec).year + 1900
  month : tm.month = (localtime tt.sec).mon + 1
  day : tm.day = (localtime tt.sec).mday
  hour : tm.hour = (localtime tt.sec).hour
  minute : tm.minute = (localtime tt.sec).min
  sec : tm.sec = (localtime tt.sec).sec

/-- So is the text, which is the one that `UpdateTime` and `AddTimeAll` produce. -/
structure Agrees (localtime : Nat → Tm) (tm : UTC_Time) (tt : Timeval) : Prop extends Shows localtime tm tt where
  text : tm.aTimeCache = ((tm.updateTime localtime tt).addTimeAll).aTimeCache

end UTC_Time

/-- What is documented of `localtime_r`, in a time zone that is whole minutes away. -/
structure Calendar (localtime : Nat → Tm) : Prop where
  sec : ∀ t, (localtime t).sec = (t % 60 : Nat)
  sameMinute : ∀ t t', t / 60 = t' / 60 → { localtime t with sec := 0 } = { localtime t' with sec := 0 }
  year : ∀ t, 0 ≤ (localtime t).year + 1900 ∧ (localtime t).year + 1900 < 10000
  mon : ∀ t, 0 ≤ (localtime t).mon ∧ (localtime t).mon < 12
  mday : ∀ t, 1 ≤ (localtime t).mday ∧ (localtime t).mday < 32
  hour : ∀ t, 0 ≤ (localtime t).hour ∧ (localtime t).hour < 24
  min : ∀ t, 0 ≤ (localtime t).min ∧ (localtime t).min < 60

namespace UTC_Time

variable {localtime : Nat → Tm} {tm : UTC_Time} {tt tv : Timeval}

/-- All of the text but the seconds. -/
def minuteText (tm : UTC_Time) : Bytes :=
  paddedText 4 tm.year ++ ascii "-" ++ twoDigits tm.month ++ ascii "-" ++ twoDigits tm.day ++ ascii " " ++
    twoDigits tm.hour ++ ascii ":" ++ twoDigits tm.minute ++ ascii ":"

/-- What the clock keeps: the array holds the text of the fields and a null byte. -/
structure Keeps (localtime : Nat → Tm) (tm : UTC_Time) (tt : Timeval) : Prop extends Shows localtime tm tt where
  cacheMin : tm.cacheMin = tt.sec / 60
  array : tm.aTimeCache = tm.minuteText ++ twoDigits tm.sec ++ [0]

theorem Shows.length_minuteText (shows : tm.Shows localtime tt) (calendar : Calendar localtime) :
    tm.minuteText.length = 17 := by
  have year := calendar.year tt.sec
  have mon := calendar.mon tt.sec
  have mday := calendar.mday tt.sec
  have hour := calendar.hour tt.sec
  have min := calendar.min tt.sec
  have four : (paddedText 4 tm.year).length = 4 := by
    rw [shows.year]
    exact length_paddedText (by decide) year.1 year.2
  have two : (twoDigits tm.month).length = 2 ∧ (twoDigits tm.day).length = 2 ∧ (twoDigits tm.hour).length = 2 ∧
      (twoDigits tm.minute).length = 2 := by
    rw [shows.month, shows.day, shows.hour, shows.minute]
    refine ⟨?_, ?_, ?_, ?_⟩ <;> apply twoDigits_length <;> omega
  obtain ⟨month, day, hour, minute⟩ := two
  simp only [minuteText, List.length_append, four, month, day, hour, minute]
  rfl

theorem Shows.length_secText (shows : tm.Shows localtime tt) (calendar : Calendar localtime) :
    (twoDigits tm.sec).length = 2 := by
  rw [shows.sec, calendar.sec]
  apply twoDigits_length <;> omega

theorem Keeps.length_array (keeps : tm.Keeps localtime tt) (calendar : Calendar localtime) :
    tm.aTimeCache.length = 20 := by
  rw [keeps.array, List.length_append, List.length_append, keeps.length_minuteText calendar,
    keeps.length_secText calendar]
  rfl

theorem shows_updateTime (localtime : Nat → Tm) (tm : UTC_Time) (tt : Timeval) :
    (tm.updateTime localtime tt).Shows localtime tt := ⟨rfl, rfl, rfl, rfl, rfl, rfl, rfl⟩

/-- The slow path, whatever the array holds. -/
theorem keeps_slow (calendar : Calendar localtime) (sized : tm.aTimeCache.length = 20) (tt : Timeval) :
    ((tm.updateTime localtime tt).addTimeAll).Keeps localtime tt := by
  have shows := shows_updateTime localtime tm tt
  have length : (tm.updateTime localtime tt).timeText.length = 19 := by
    rw [show (tm.updateTime localtime tt).timeText = (tm.updateTime localtime tt).minuteText ++
      twoDigits (tm.updateTime localtime tt).sec from rfl, List.length_append, shows.length_minuteText calendar,
      shows.length_secText calendar]
  refine ⟨⟨rfl, rfl, rfl, rfl, rfl, rfl, rfl⟩, rfl, ?_⟩
  apply (snprintf_whole (by rw [length]) (by rw [Nat.zero_add]; exact sized)).trans
  rw [List.take_zero, List.nil_append]
  rfl

/-- The fast path. -/
theorem Keeps.fast (keeps : tm.Keeps localtime tt) (calendar : Calendar localtime)
    (sameMinute : tv.sec / 60 = tm.cacheMin) :
    { tm with cacheSec := tv.sec, sec := ((tv.sec % 60 : Nat) : Int) }.addTimeSec.Keeps localtime tv := by
  rw [keeps.cacheMin] at sameMinute
  have same := calendar.sameMinute tv.sec tt.sec sameMinute
  rw [Tm.mk.injEq] at same
  obtain ⟨year, mon, mday, hour, min, _⟩ := same
  have secs : (twoDigits ((tv.sec % 60 : Nat) : Int)).length = 2 := by
    apply twoDigits_length <;> omega
  refine ⟨⟨rfl, ?_, ?_, ?_, ?_, ?_, (calendar.sec tv.sec).symm⟩, ?_, ?_⟩
  · rw [year]
    exact keeps.year
  · rw [mon]
    exact keeps.month
  · rw [mday]
    exact keeps.day
  · rw [hour]
    exact keeps.hour
  · rw [min]
    exact keeps.minute
  · rw [sameMinute]
    exact keeps.cacheMin
  · have front : tm.aTimeCache.take 17 = tm.minuteText := by
      rw [keeps.array, List.append_assoc]
      exact List.take_left' (keeps.length_minuteText calendar)
    apply (snprintf_whole (by rw [secs]) (keeps.length_array calendar)).trans
    rw [front]
    rfl

theorem Keeps.agrees (keeps : tm.Keeps localtime tt) (calendar : Calendar localtime) : tm.Agrees localtime tt := by
  have slow := keeps_slow calendar (keeps.length_array calendar) tt
  refine ⟨keeps.toShows, ?_⟩
  rw [keeps.array, slow.array]
  simp only [minuteText, keeps.year, keeps.month, keeps.day, keeps.hour, keeps.minute, keeps.sec,
    slow.year, slow.month,
    slow.day, slow.hour, slow.minute, slow.sec]

theorem Keeps.getCurTime (keeps : tm.Keeps localtime tt) (calendar : Calendar localtime) (tv : Timeval) :
    (tm.getCurTime localtime tv).1.Keeps localtime tv := by
  by_cases same : tv.sec = tm.cacheSec
  · have stays : (tm.getCurTime localtime tv).1 = tm := if_neg fun differ => differ same
    have second : tt.sec = tv.sec := keeps.cacheSec.symm.trans same.symm
    obtain ⟨shows, cacheMin, array⟩ := keeps
    obtain ⟨cacheSec, year, month, day, hour, minute, sec⟩ := shows
    rw [second] at cacheSec year month day hour minute sec cacheMin
    rw [stays]
    exact ⟨⟨cacheSec, year, month, day, hour, minute, sec⟩, cacheMin, array⟩
  · by_cases sameMinute : tv.sec / 60 = tm.cacheMin
    · have patched : (tm.getCurTime localtime tv).1 =
          { tm with cacheSec := tv.sec, sec := ((tv.sec % 60 : Nat) : Int) }.addTimeSec :=
        (if_pos same).trans (if_pos sameMinute)
      rw [patched]
      exact keeps.fast calendar sameMinute
    · have renewed : (tm.getCurTime localtime tv).1 =
          (updateTime localtime { tm with cacheSec := tv.sec } tv).addTimeAll :=
            (if_pos same).trans (if_neg sameMinute)
      rw [renewed]
      exact keeps_slow calendar (keeps.length_array calendar) tv

end UTC_Time

/-- The clock after its latest reading, and what the latest call returned, if there was one. -/
structure ClockRun where
  clock : UTC_Time
  reading : Timeval
  returned : Option Nat

/-- One call of `GetCurTime`, with what `gettimeofday` reads. -/
def ClockRun.act (localtime : Nat → Tm) (s : ClockRun) (tv : Timeval) : ClockRun where
  clock := (s.clock.getCurTime localtime tv).1
  reading := tv
  returned := some (s.clock.getCurTime localtime tv).2.1

def clockSystem (localtime : Nat → Tm) : System ClockRun Timeval where
  init s := ∃ memory : UTC_Time, memory.aTimeCache.length = 20 ∧
    s.clock = .create localtime memory s.reading ∧ s.returned = none
  step s tv s' := s.act localtime tv = s'

theorem clock_keeps (calendar : Calendar localtime)
    (reachable : (clockSystem localtime).Reachable (fun _ _ => True) s) :
    s.clock.Keeps localtime s.reading ∧ ∀ second ∈ s.returned, second = s.reading.sec := by
  refine reachable.invariant
    (fun s => s.clock.Keeps localtime s.reading ∧ ∀ second ∈ s.returned, second = s.reading.sec) ?_ ?_
  · rintro s ⟨memory, sized, clock, returned⟩
    rw [clock, returned]
    exact ⟨UTC_Time.keeps_slow calendar sized s.reading, nofun⟩
  · rintro s tv _ ⟨keeps, _⟩ _ rfl
    have kept := keeps.getCurTime calendar tv
    refine ⟨kept, ?_⟩
    rintro second ⟨⟩
    exact kept.cacheSec

/-- After any readings, in any order, the clock shows the latest one. -/
theorem clock_agrees (calendar : Calendar localtime)
    (reachable : (clockSystem localtime).Reachable (fun _ _ => True) s) :
    s.clock.Agrees localtime s.reading ∧ ∀ second ∈ s.returned, second = s.reading.sec := by
  obtain ⟨keeps, returned⟩ := clock_keeps calendar reachable
  exact ⟨keeps.agrees calendar, returned⟩

/-- The hours of one day, over and over. -/
def oneDay (t : Nat) : Tm where
  year := 70
  mon := 0
  mday := 1
  hour := (t / 3600 % 24 : Nat)
  min := (t / 60 % 60 : Nat)
  sec := (t % 60 : Nat)

theorem oneDay_calendar : Calendar oneDay := by
  refine ⟨fun _ => rfl, ?_, ?_, ?_, ?_, ?_, ?_⟩
  · intro t t' same
    have hours : t / 3600 = t' / 3600 := by omega
    simp only [oneDay, same, hours]
  all_goals
    intro t
    simp only [oneDay]
    omega

/-- An array of null bytes, before the constructor. -/
def blankClock : UTC_Time := ⟨List.replicate 20 0, 0, 0, 0, 0, 0, 0, 0, 0⟩

/-- From second 61 back to second 60, and on to second 120. -/
theorem oneDay_agrees :
    ∃ s, (clockSystem oneDay).Run ⟨.create oneDay blankClock ⟨61, 0⟩, ⟨61, 0⟩, none⟩ [⟨60, 0⟩, ⟨120, 5⟩] s ∧
      s.clock.Agrees oneDay s.reading ∧ ∀ second ∈ s.returned, second = s.reading.sec := by
  obtain ⟨s, run⟩ : ∃ s,
    (clockSystem oneDay).Run ⟨.create oneDay blankClock ⟨61, 0⟩, ⟨61, 0⟩, none⟩ [⟨60, 0⟩, ⟨120, 5⟩] s :=
    ⟨_, _, rfl, _, rfl, rfl⟩
  have start : (clockSystem oneDay).init ⟨.create oneDay blankClock ⟨61, 0⟩, ⟨61, 0⟩, none⟩ :=
    ⟨blankClock, rfl, rfl, rfl⟩
  have reachable := System.Reachable.run (.init start) run
  exact ⟨s, run, clock_agrees oneDay_calendar reachable⟩

end WSlyh.Log
