import QueryEngine.Text.Number

namespace QueryEngine

/-- A day of the proleptic Gregorian calendar. -/
structure Date where
  year : Int
  month : Nat
  day : Nat
deriving Repr, DecidableEq

/-- A moment as a day number and the second of that day. -/
structure Moment where
  day : Int
  second : Nat
deriving Repr, DecidableEq

namespace Calendar

def secondsPerDay : Nat := 86400

def daysPerEra : Int := 146097

/-- Days from the first of March of year 0 to the first of January of 1970. -/
def epochOffset : Int := 719468

/-- The year a date belongs to when years start in March. -/
def marchYear (date : Date) : Int := if date.month ≤ 2 then date.year - 1 else date.year

/-- Days since the start of the 400 year era the date is in. -/
def dayOfEra (date : Date) : Int :=
  let yearOfEra := marchYear date % 400
  let month : Int := (date.month + 9) % 12
  let dayOfYear := (153 * month + 2) / 5 + date.day - 1
  yearOfEra * 365 + yearOfEra / 4 - yearOfEra / 100 + dayOfYear

/-- The number of the day, counted from 1970-01-01. -/
def dayNumber (date : Date) : Int := marchYear date / 400 * daysPerEra + dayOfEra date - epochOffset

def dateOf (number : Int) : Date :=
  let shifted := number + epochOffset
  let era := shifted / daysPerEra
  let dayOfEra := shifted % daysPerEra
  let yearOfEra := (dayOfEra - dayOfEra / 1460 + dayOfEra / 36524 - dayOfEra / 146096) / 365
  let dayOfYear := dayOfEra - (365 * yearOfEra + yearOfEra / 4 - yearOfEra / 100)
  let month := (5 * dayOfYear + 2) / 153
  let day := dayOfYear - (153 * month + 2) / 5 + 1
  let month := if month < 10 then month + 3 else month - 9
  { year := yearOfEra + era * 400 + (if month ≤ 2 then 1 else 0), month := month.toNat, day := day.toNat }

/-- The numbers `dayNumber` passes through in 64-bit words. -/
def dayNumberSteps (date : Date) : List Int :=
  let year := marchYear date
  let eraStart := year / 400 * daysPerEra
  [year, if year < 0 then year - 399 else year, eraStart, eraStart + dayOfEra date, dayNumber date]

def dayNumber? (date : Date) : Option Int :=
  if (dayNumberSteps date).all fitsInt64 then some (dayNumber date) else none

def dateOf? (number : Int) : Option Date :=
  let shifted := number + epochOffset
  if fitsInt64 shifted && fitsInt64 (if shifted < 0 then shifted - 146096 else shifted) then some (dateOf number)
  else none

def dateText (date : Date) : String :=
  zeroPaddedInt 4 date.year ++ "-" ++ zeroPadded 2 date.month ++ "-" ++ zeroPadded 2 date.day

def dayText (number : Int32) : String := dateText (dateOf number.toInt)

def timeText (second : Nat) : String :=
  zeroPadded 2 (second / 3600) ++ ":" ++ zeroPadded 2 (second % 3600 / 60) ++ ":" ++ zeroPadded 2 (second % 60)

def momentOf (seconds : Int) : Moment where
  day := seconds / secondsPerDay
  second := (seconds % secondsPerDay).toNat

/-- The text of a second count. Its day number is reduced to 32 bits first. -/
def secondText (seconds : Int64) : String :=
  let moment := momentOf seconds.toInt
  dayText (Int32.ofInt moment.day) ++ " " ++ timeText moment.second

end Calendar

end QueryEngine
