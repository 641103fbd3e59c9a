import QueryEngine.Calendar
import QueryEngine.Proofs.Text.Numerals
import Mathlib.Tactic.IntervalCases
import Mathlib.Tactic.MkIffOfInductiveProp

namespace QueryEngine

variable {date first second : Date} {day year : Int}

namespace Date

/-- Every fourth year is a leap year, but of those that end a century only every fourth. -/
def Leap (year : Int) : Prop := year % 4 = 0 ∧ (year % 100 ≠ 0 ∨ year % 400 = 0)

instance (year : Int) : Decidable (Leap year) := inferInstanceAs (Decidable (_ ∧ _))

def monthLength (year : Int) (month : Nat) : Nat :=
  if month = 2 then if Leap year then 29 else 28
  else if month ∈ [4, 6, 9, 11] then 30
  else 31

/-- The date is one of the Gregorian calendar. -/
@[mk_iff]
structure Exists (date : Date) : Prop where
  month : 1 ≤ date.month ∧ date.month ≤ 12
  day : 1 ≤ date.day ∧ date.day ≤ monthLength date.year date.month

/-- What is asked of a date that is read. Every month may have 31 days. -/
def Admitted (date : Date) : Prop := (1 ≤ date.month ∧ date.month ≤ 12) ∧ 1 ≤ date.day ∧ date.day ≤ 31

theorem Exists.admitted (real : date.Exists) : date.Admitted := by
  obtain ⟨month, first, last⟩ := real
  refine ⟨month, first, last.trans ?_⟩
  unfold monthLength
  split <;> split <;> decide

def Before (first second : Date) : Prop :=
  first.year < second.year ∨ first.year = second.year ∧
    (first.month < second.month ∨ first.month = second.month ∧ first.day < second.day)

end Date

namespace Calendar

/-- Days from the first of March of year 0 to that of `year`. -/
def daysBeforeYear (year : Int) : Int := 365 * year + year / 4 - year / 100 + year / 400

/-- Days before a month, counted like `month` itself from March. -/
def daysBeforeMonth (month : Int) : Int := (153 * month + 2) / 5

/-- A day by its year, its month and its day of the month, where years start in March. -/
@[mk_iff]
structure MarchDay (year month day : Int) : Prop where
  months : 0 ≤ month ∧ month ≤ 11
  first : 1 ≤ day
  inMonth : daysBeforeMonth month + day ≤ daysBeforeMonth (month + 1)
  inYear : daysBeforeYear year + daysBeforeMonth month + day ≤ daysBeforeYear (year + 1)

def marchMonth (date : Date) : Int := (date.month + 9) % 12

variable {number : Int}

theorem dayNumber_eq (date : Date) :
    dayNumber date =
      daysBeforeYear (marchYear date) + daysBeforeMonth (marchMonth date) + date.day - 1 - epochOffset := by
  simp only [dayNumber, dayOfEra, daysBeforeYear, daysBeforeMonth, marchMonth, daysPerEra]
  omega

theorem daysBeforeYear_succ (year : Int) :
    daysBeforeYear (year + 1) = daysBeforeYear year + if Date.Leap (year + 1) then 366 else 365 := by
  split <;> simp only [daysBeforeYear, Date.Leap] at * <;> omega

/-- A date exists just when it is a day of its year from March on: the day that a leap year adds is the last of that
year. -/
theorem exists_iff_marchDay (least : 1 ≤ date.month) (greatest : date.month ≤ 12) :
    date.Exists ↔ MarchDay (marchYear date) (marchMonth date) date.day := by
  obtain ⟨year, month, day⟩ := date
  rw [Date.exists_iff, marchDay_iff, daysBeforeYear_succ]
  interval_cases month <;> simp [Date.monthLength, marchYear, marchMonth, daysBeforeMonth] <;> grind

theorem yearOfEra_spec (low : 0 ≤ day) (high : day < daysPerEra)
    (year_eq : year = (day - day / 1460 + day / 36524 - day / 146096) / 365) :
    0 ≤ year ∧ year < 400 ∧ daysBeforeYear year ≤ day ∧ day < daysBeforeYear (year + 1) := by
  unfold daysBeforeYear
  unfold daysPerEra at high
  obtain rfl | before : day = 146096 ∨ day < 146096 := by omega
  · subst year_eq
    decide
  have century : year / 100 = day / 36524 := by omega
  have least : year / 4 ≤ day / 1460 := by omega
  have most : day / 1460 ≤ (year + 1) / 4 := by omega
  refine ⟨by omega, by omega, by omega, ?_⟩
  obtain turn | same : (year + 1) % 100 = 0 ∨ (year + 1) / 100 = day / 36524 := by omega
  · omega
  · omega

theorem monthOfYear_spec {month : Int} (low : 0 ≤ day) (high : day < 366) (month_eq : month = (5 * day + 2) / 153) :
    0 ≤ month ∧ month ≤ 11 ∧ daysBeforeMonth month ≤ day ∧ day < daysBeforeMonth (month + 1) := by
  unfold daysBeforeMonth
  omega

/-- The date of a day number, by its year, month and day from March on. -/
theorem dateOf_spec (number : Int) :
    ∃ year month day : Int, MarchDay year month day ∧
      number = daysBeforeYear year + daysBeforeMonth month + day - 1 - epochOffset ∧
      dateOf number = ⟨if month < 10 then year else year + 1,
        (if month < 10 then month + 3 else month - 9).toNat, day.toNat⟩ := by
  have low := Int.emod_nonneg (number + epochOffset) (b := daysPerEra) (by decide)
  have high := Int.emod_lt_of_pos (number + epochOffset) (b := daysPerEra) (by decide)
  have whole := Int.mul_ediv_add_emod (number + epochOffset) daysPerEra
  unfold dateOf
  dsimp only
  generalize (number + epochOffset) / daysPerEra = era at *
  generalize (number + epochOffset) % daysPerEra = day at *
  obtain ⟨first, last, least, most⟩ := yearOfEra_spec low high rfl
  generalize (day - day / 1460 + day / 36524 - day / 146096) / 365 = year at *
  have start : daysBeforeYear year = 365 * year + year / 4 - year / 100 := by
    unfold daysBeforeYear
    omega
  have shift (year : Int) : daysBeforeYear (year + era * 400) = daysBeforeYear year + era * daysPerEra := by
    simp only [daysBeforeYear, daysPerEra]
    omega
  have length : daysBeforeYear (year + 1) ≤ daysBeforeYear year + 366 := by
    rw [daysBeforeYear_succ]
    split <;> omega
  rw [← start]
  obtain ⟨first', last', least', most'⟩ := monthOfYear_spec (by omega : 0 ≤ day - daysBeforeYear year) (by omega) rfl
  generalize (5 * (day - daysBeforeYear year) + 2) / 153 = month at *
  refine ⟨year + era * 400, month, day - daysBeforeYear year - daysBeforeMonth month + 1,
    ⟨⟨first', last'⟩, by omega, by omega, ?_⟩, ?_, ?_⟩
  · rw [shift, add_right_comm year, shift]
    omega
  · rw [shift]
    lia
  · congr 1
    split <;> split <;> omega

theorem dateOf_exists (number : Int) : (dateOf number).Exists ∧ dayNumber (dateOf number) = number := by
  obtain ⟨year, month, day, march, day_eq, date⟩ := dateOf_spec number
  have months := march.months
  have first := march.first
  have year_eq : marchYear (dateOf number) = year := by
    rw [date, marchYear]
    grind
  have month_eq : marchMonth (dateOf number) = month := by
    rw [date, marchMonth]
    grind
  have day_eq' : (dateOf number).day = day := by
    grind
  constructor
  · rw [exists_iff_marchDay, year_eq, month_eq, day_eq']
    · exact march
    all_goals rw [date]; grind
  · rw [dayNumber_eq, year_eq, month_eq, day_eq', day_eq]

/-- Later dates have greater numbers. -/
theorem dayNumber_lt (real : first.Exists) (real' : second.Exists) (before : first.Before second) :
    dayNumber first < dayNumber second := by
  obtain ⟨-, -, inMonth, inYear⟩ := (exists_iff_marchDay real.month.1 real.month.2).mp real
  obtain ⟨months, day, -, -⟩ := (exists_iff_marchDay real'.month.1 real'.month.2).mp real'
  have march : marchYear first < marchYear second ∨ marchYear first = marchYear second ∧
      (marchMonth first < marchMonth second ∨ marchMonth first = marchMonth second ∧ first.day < second.day) := by
    have := real.month
    have := real'.month
    unfold Date.Before at before
    grind [marchYear, marchMonth]
  rw [dayNumber_eq, dayNumber_eq]
  obtain year | ⟨year, month | ⟨month, day⟩⟩ := march
  · have years : daysBeforeYear (marchYear first + 1) ≤ daysBeforeYear (marchYear second) := by
      unfold daysBeforeYear
      omega
    have : 0 ≤ daysBeforeMonth (marchMonth second) := by
      unfold daysBeforeMonth
      omega
    omega
  · have : daysBeforeMonth (marchMonth first + 1) ≤ daysBeforeMonth (marchMonth second) := by
      unfold daysBeforeMonth
      omega
    rw [year]
    omega
  · rw [year, month]
    omega

theorem before_trichotomy (first second : Date) : first.Before second ∨ first = second ∨ second.Before first := by
  obtain ⟨year, month, day⟩ := first
  obtain ⟨year', month', day'⟩ := second
  simp only [Date.Before, Date.mk.injEq]
  omega

theorem dayNumber_lt_iff (real : first.Exists) (real' : second.Exists) :
    dayNumber first < dayNumber second ↔ first.Before second := by
  refine ⟨fun less => ?_, dayNumber_lt real real'⟩
  obtain before | rfl | after := before_trichotomy first second
  · exact before
  · omega
  · have := dayNumber_lt real' real after
    omega

theorem dateOf_dayNumber (real : date.Exists) : dateOf (dayNumber date) = date := by
  obtain ⟨real', same⟩ := dateOf_exists (dayNumber date)
  obtain before | same | after := before_trichotomy (dateOf (dayNumber date)) date
  · have := dayNumber_lt real' real before
    omega
  · exact same
  · have := dayNumber_lt real real' after
    omega

/-- In 64-bit words a day number has its date as long as its distance from year 0 is a word, too. -/
theorem dateOf?_eq_some (fits : fitsInt64 number) :
    dateOf? number = some date ↔ date = dateOf number ∧ fitsInt64 (number + epochOffset) := by
  rw [dateOf?, Option.ite_none_right_eq_some, and_comm, Option.some.injEq, eq_comm]
  simp only [Bool.and_eq_true, fitsInt64_iff, epochOffset] at *
  grind

theorem dayNumber?_eq_some (admitted : date.Admitted) :
    dayNumber? date = some number ↔
      number = dayNumber date ∧ fitsInt64 number ∧ fitsInt64 (number + epochOffset) := by
  obtain ⟨month, day⟩ := admitted
  rw [dayNumber?, Option.ite_none_right_eq_some, and_comm, Option.some.injEq, eq_comm]
  refine and_congr_right ?_
  rintro rfl
  have inEra : 0 ≤ dayOfEra date ∧ dayOfEra date ≤ daysPerEra + 31 := by
    simp only [dayOfEra, daysPerEra]
    omega
  simp only [dayNumberSteps, dayNumber, List.all_cons, List.all_nil, Bool.and_eq_true, Bool.and_true, fitsInt64_iff,
    epochOffset, daysPerEra] at *
  grind

/-- Day numbers and existing dates match one to one, also in 64-bit words, and in the order of time. -/
theorem dates_match_day_numbers :
    (∀ (number : Int64) (date : Date), dateOf? number.toInt = some date →
      date.Exists ∧ dayNumber? date = some number.toInt) ∧
    (∀ (date : Date) (number : Int), date.Exists → dayNumber? date = some number → dateOf? number = some date) ∧
    (∀ date : Date, date.Exists → dateOf (dayNumber date) = date) ∧
    (∀ first second : Date, first.Exists → second.Exists →
      (dayNumber first < dayNumber second ↔ first.Before second)) ∧
    dayNumber? ⟨1970, 1, 1⟩ = some 0 := by
  refine ⟨fun number date found => ?_, fun date number real found => ?_, fun _ => dateOf_dayNumber,
    fun _ _ => dayNumber_lt_iff, by decide⟩
  · have fits := fitsInt64_toInt number
    obtain ⟨rfl, shifted⟩ := (dateOf?_eq_some fits).mp found
    obtain ⟨real, same⟩ := dateOf_exists number.toInt
    exact ⟨real, (dayNumber?_eq_some real.admitted).mpr ⟨same.symm, fits, shifted⟩⟩
  · obtain ⟨rfl, fits, shifted⟩ := (dayNumber?_eq_some real.admitted).mp found
    exact (dateOf?_eq_some fits).mpr ⟨(dateOf_dayNumber real).symm, shifted⟩

theorem leap_day_matches :
    dayNumber? ⟨2000, 2, 29⟩ = some 11016 ∧ dateOf? 11016 = some ⟨2000, 2, 29⟩ :=
  ⟨by decide, dates_match_day_numbers.2.1 _ _ ⟨by decide, by decide⟩ (by decide)⟩

end Calendar

end QueryEngine
