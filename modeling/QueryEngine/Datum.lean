import QueryEngine.Calendar
import QueryEngine.Text.Field
import QueryEngine.Types.Inference

namespace QueryEngine

/-- A value outside of generated code: what tables are filled with, what a plan's literals are, and what result rows
hold. -/
inductive Datum where
  | null
  | bool (value : Bool)
  | integer (value : Int32)
  /-- `numeric 1250 2` is 12.50. -/
  | numeric (raw : Int64) (precision : UInt8)
  | char (text : String)
  | varchar (text : String)
  /-- Days since 1970-01-01. -/
  | date (day : Int32)
  /-- Seconds since 1970-01-01 00:00:00. -/
  | timestamp (second : Int64)
deriving Repr, DecidableEq

inductive DatumError where
  | mismatch (shown : String) (ty : ValueType)
  | nullNotAllowed (ty : ValueType)
  | unreadable (what text : String)
deriving Repr, DecidableEq

def DatumError.message : DatumError → String
  | mismatch shown ty => "Value " ++ shown ++ " does not fit type " ++ ty.text ++ "."
  | nullNotAllowed ty => "NULL is not allowed for type " ++ ty.text ++ "."
  | unreadable what text => "Unable to parse " ++ what ++ " from '" ++ text ++ "'."

def powerOfTen? (exponent : UInt8) : Option Int := if exponent ≤ 18 then some (Int.pow 10 exponent.toNat) else none

namespace Decimal

/-- The decimal text of `raw / 10 ^ precision`. -/
def text? (raw : Int64) (precision : UInt8) : Option String :=
  if precision = 0 then some (toString raw.toInt)
  else do
    let scale := (← powerOfTen? precision).toNat
    let magnitude := raw.toInt.natAbs
    let sign := if raw.toInt < 0 then "-" else ""
    some (sign ++ toString (magnitude / scale) ++ "." ++ zeroPadded precision.toNat (magnitude % scale))

/-- `raw / 10 ^ source` with `target` fractional digits: exact when digits are added, cut off when they are dropped.
The inner `none` says that the result is out of range. -/
def rescale? (raw : Int64) (source target : UInt8) : Option (Option Int64) := do
  if source ≤ target then
    let factor ← powerOfTen? (target - source)
    some (int64? (raw.toInt * factor))
  else
    let factor ← powerOfTen? (source - target)
    some (some (Int64.ofInt (raw.toInt.tdiv factor)))

/-- The fractional digits of a literal, scaled up to `precision` of them. -/
def readFraction (cause : DatumError) (precision : UInt8) (cs : List Char) : Checked DatumError Int :=
  if cs.isEmpty then .ok 0
  else do
    let n ← Checked.orFail cause (readInt64 cs)
    let factor ← Checked.orTrap (powerOfTen? (UInt8.ofNat (precision.toNat - byteLength (String.ofList cs))))
    if fitsInt64 (n * factor) then .ok (n * factor) else Checked.trap

/-- Reads a literal such as `-12.5` as a number with `precision` fractional digits. -/
def read (text : String) (precision : UInt8) : Checked DatumError Int64 := do
  let cause := DatumError.unreadable "numeric" text
  let cs := trimBlanks text.toList
  let (negative, cs) := match cs with
    | '-' :: rest => (true, rest)
    | _ => (false, cs)
  let (whole, fraction) := (splitFirst '.' cs).getD (cs, [])
  if whole.isEmpty ∧ fraction.isEmpty then Checked.fail cause
  if precision.toNat < byteLength (String.ofList fraction) then Checked.fail cause
  let units ← if whole.isEmpty then .ok 0 else Checked.orFail cause (readInt64 whole)
  let parts ← readFraction cause precision fraction
  let scale ← Checked.orTrap (powerOfTen? precision)
  if !fitsInt64 (units * scale) then Checked.fail cause
  let raw := units * scale + parts
  if !fitsInt64 raw then Checked.fail cause
  Checked.orTrap (int64? (if negative then -raw else raw))

end Decimal

namespace Calendar

/-- Reads `year-month-day`. Every month may have 31 days. -/
def readDay (text : String) : Checked DatumError Int32 := do
  let cause := DatumError.unreadable "date" text
  match splitAll '-' (trimBlanks text.toList) with
  | [year, month, day] =>
    let year ← Checked.orFail cause (readInt64 year)
    let month ← Checked.orFail cause (readUInt32 month)
    let day ← Checked.orFail cause (readUInt32 day)
    if !(1 ≤ month && month ≤ 12 && 1 ≤ day && day ≤ 31) then Checked.fail cause
    let number ← Checked.orTrap (dayNumber? ⟨year, month, day⟩)
    if fitsInt32 number then .ok (Int32.ofInt number) else Checked.fail cause
  | _ => Checked.fail cause

/-- Reads `year-month-day`, or that followed by a space and `hour:minute:second`. -/
def readSecond (text : String) : Checked DatumError Int64 := do
  let cause := DatumError.unreadable "timestamp" text
  let cs := trimBlanks text.toList
  let (date, time) := (splitFirst ' ' cs).getD (cs, "00:00:00".toList)
  let day ← readDay (String.ofList date)
  let fields ← Checked.orFail cause ((splitAll ':' time).mapM readUInt32)
  match fields with
  | [hour, minute, second] =>
    if 23 < hour ∨ 59 < minute ∨ 59 < second then Checked.fail cause
    else .ok (Int64.ofInt (day.toInt * secondsPerDay + (hour * 3600 + minute * 60 + second : Nat)))
  | _ => Checked.fail cause

end Calendar

namespace Datum

def isNull : Datum → Bool
  | null => true
  | _ => false

def text? : Datum → Option String
  | null => some "NULL"
  | bool value => some (if value then "true" else "false")
  | integer value => some (toString value.toInt)
  | numeric raw precision => Decimal.text? raw precision
  | char text | varchar text => some text
  | date day => some (Calendar.dayText day)
  | timestamp second => some (Calendar.secondText second)

/-- Integers stand on the right of a field, everything else on the left. -/
def align : Datum → Align
  | integer _ => .right
  | _ => .left

def fieldText? (width : Nat) (d : Datum) : Option String := d.text?.map (padded d.align width)

def digitCount (n : Nat) : Nat := (Nat.toDigits 10 n).length

def naturalType? : Datum → Option ValueType
  | null => some .unknown
  | bool _ => some .bool
  | integer _ => some .integer
  | numeric raw precision => do
    let digits := UInt8.ofNat (digitCount raw.toInt.natAbs)
    let least ← ValueType.addBytes? precision 1
    some (.numeric (min (max digits least) numericDigits) precision)
  | char text => some (.char (UInt16.ofNat (byteLength text)))
  | varchar text => some (.varchar (UInt16.ofNat (byteLength text)))
  | date _ => some .date
  | timestamp _ => some .timestamp

/-- The value as one of type `ty`. Integers widen to numerics, numerics are rescaled, strings must fit the declared
length and are read as dates and timestamps. -/
def coerce (d : Datum) (ty : ValueType) : Checked DatumError Datum :=
  let mismatch : Checked DatumError Datum := do
    let shown ← Checked.orTrap d.text?
    Checked.fail (.mismatch shown ty)
  match d, ty.shape with
  | null, _ => if ty.nullable then .ok null else Checked.fail (.nullNotAllowed ty)
  | bool value, .bool => .ok (bool value)
  | integer value, .integer => .ok (integer value)
  | integer value, .numeric _ precision => do
    let scale ← Checked.orTrap (powerOfTen? precision)
    match int64? (value.toInt * scale) with
    | some raw => .ok (numeric raw precision)
    | none => mismatch
  | numeric raw source, .numeric _ precision => do
    match ← Checked.orTrap (Decimal.rescale? raw source precision) with
    | some raw => .ok (numeric raw precision)
    | none => mismatch
  | char text, .char length | varchar text, .char length =>
    if byteLength text ≤ length.toNat then .ok (char text) else mismatch
  | char text, .varchar capacity | varchar text, .varchar capacity =>
    if byteLength text ≤ capacity.toNat then .ok (varchar text) else mismatch
  | date day, .date => .ok (date day)
  | char text, .date | varchar text, .date => do .ok (date (← Calendar.readDay text))
  | timestamp second, .timestamp => .ok (timestamp second)
  | date day, .timestamp => .ok (timestamp (Int64.ofInt (day.toInt * Calendar.secondsPerDay)))
  | char text, .timestamp | varchar text, .timestamp => do .ok (timestamp (← Calendar.readSecond text))
  | _, _ => mismatch

end Datum

end QueryEngine
