import QueryEngine.Datum
import QueryEngine.Proofs.Datum.Dates

namespace QueryEngine

open List Int32 Checked

variable {y m d : List Char} {n : Int} {second : Nat}

namespace Calendar

/-- Apart from blanks around it the text is `year-month-day`. -/
def Writes (text : String) (date : Date) : Prop :=
  ∃ (year : Nat) (y m d : List Char), trimBlanks text.toList = y ++ '-' :: (m ++ '-' :: d) ∧
    date.year = year ∧ Field y year ∧ Field m date.month ∧ Field d date.day

variable {text : String} {date : Date}

theorem writes_iff (fields : splitAll '-' (trimBlanks text.toList) = [y, m, d]) :
    Writes text date ↔ ∃ year : Nat, date.year = year ∧ Field y year ∧ Field m date.month ∧ Field d date.day := by
  constructor
  · rintro ⟨year, _, _, _, trimmed, year_eq, hy, hm, hd⟩
    have fields' := splitAll_eq_three.mpr ⟨trimmed, hy.not_mem, hm.not_mem, hd.not_mem⟩
    cases fields.symm.trans fields'
    exact ⟨year, year_eq, hy, hm, hd⟩
  · rintro ⟨year, year_eq, hy, hm, hd⟩
    exact ⟨year, y, m, d, (splitAll_eq_three.mp fields).1, year_eq, hy, hm, hd⟩

theorem fields_read_iff (fields : splitAll '-' (trimBlanks text.toList) = [y, m, d]) :
    readInt64 y = some date.year ∧ readUInt32 m = some date.month ∧ readUInt32 d = some date.day ↔
      Writes text date ∧ date.year ≤ int64Max ∧ date.month < UInt32.size ∧ date.day < UInt32.size := by
  have unsigned : y.head? ≠ some '-' := fun head => (splitAll_eq_three.mp fields).2.1 (mem_of_head? head)
  rw [writes_iff fields, readInt64_eq_some unsigned, readUInt32, readUInt32, readNat_eq_some, readNat_eq_some]
  constructor
  · rintro ⟨⟨n, hy, same, small⟩, ⟨hm, less⟩, hd, less'⟩
    exact ⟨⟨n, same.symm, hy, hm, hd⟩, small, less, less'⟩
  · rintro ⟨⟨n, same, hy, hm, hd⟩, small, less, less'⟩
    exact ⟨⟨n, hy, same.symm, small⟩, ⟨hm, less⟩, hd, less'⟩

theorem fitsInt32_iff : fitsInt32 n ↔ -2 ^ 31 ≤ n ∧ n < 2 ^ 31 := by
  simp only [fitsInt32, Bool.and_eq_true, decide_eq_true_eq]
  omega

theorem fitsInt32_iff_exists : fitsInt32 n ↔ ∃ word : Int32, word.toInt = n := by
  rw [fitsInt32_iff]
  constructor
  · exact fun ⟨low, high⟩ => ⟨ofInt n, toInt_ofInt_of_le low high⟩
  · rintro ⟨word, rfl⟩
    exact ⟨word.le_toInt, word.toInt_lt⟩

/-- A number of 32 bits leaves no room for an overflow. -/
theorem dayNumber?_of_int32 (admitted : date.Admitted) (fits : fitsInt32 (dayNumber date)) :
    date.year ≤ int64Max ∧ dayNumber? date = some (dayNumber date) := by
  rw [dayNumber?_eq_some admitted, fitsInt64_iff, fitsInt64_iff]
  obtain ⟨month, day⟩ := admitted
  rw [fitsInt32_iff] at fits
  refine ⟨?_, rfl, by omega, by unfold epochOffset; omega⟩
  simp only [dayNumber_eq, daysBeforeYear, daysBeforeMonth, marchMonth, marchYear, epochOffset] at fits
  unfold int64Max
  split at fits <;> omega

/-- What is done with the three numbers of a text. -/
theorem readDay_of_fields (fields : splitAll '-' (trimBlanks text.toList) = [y, m, d])
    (year : readInt64 y = some date.year) (month : readUInt32 m = some date.month) (day : readUInt32 d = some date.day) :
    (date.Admitted → readDay text = orTrap (dayNumber? date) >>= fun number =>
      if fitsInt32 number then .ok (ofInt number) else fail (.unreadable "date" text)) ∧
    (¬date.Admitted → readDay text = fail (.unreadable "date" text)) := by
  unfold readDay
  rw [fields]
  simp only [year, month, day, orFail, bind, Except.bind]
  unfold Date.Admitted
  constructor
  · rintro ⟨⟨_, _⟩, _, _⟩
    rw [if_neg (by simp_all)]
  · intro refused
    rw [if_pos (by simp; omega)]
    rfl

theorem readDay_of_date (writes : Writes text date) (small : date.year ≤ int64Max) (admitted : date.Admitted) :
    readDay text = orTrap (dayNumber? date) >>= fun number =>
      if fitsInt32 number then .ok (ofInt number) else fail (.unreadable "date" text) := by
  obtain ⟨_, y, m, d, trimmed, -, hy, hm, hd⟩ := id writes
  have fields := splitAll_eq_three.mpr ⟨trimmed, hy.not_mem, hm.not_mem, hd.not_mem⟩
  obtain ⟨year, month, day⟩ := (fields_read_iff fields).mpr
    ⟨writes, small, admitted.1.2.trans_lt (by decide), admitted.2.2.trans_lt (by decide)⟩
  exact (readDay_of_fields fields year month day).1 admitted

/-- What reading a date can answer. -/
theorem readDay_cases (text : String) :
    (∃ date number, Writes text date ∧ date.Admitted ∧ dayNumber date = number.toInt ∧ readDay text = .ok number) ∨
    (∃ date, Writes text date ∧ date.Admitted ∧ date.year ≤ int64Max ∧ dayNumber? date = none ∧
      readDay text = trap) ∨
    readDay text = fail (.unreadable "date" text) := by
  by_cases read : ∃ y m d, ∃ date : Date, splitAll '-' (trimBlanks text.toList) = [y, m, d] ∧
      readInt64 y = some date.year ∧ readUInt32 m = some date.month ∧ readUInt32 d = some date.day
  · obtain ⟨y, m, d, date, fields, numbers⟩ := read
    obtain ⟨writes, small, -⟩ := (fields_read_iff fields).mp numbers
    by_cases admitted : date.Admitted
    · rw [readDay_of_date writes small admitted]
      cases number_eq : dayNumber? date with
      | none => exact .inr (.inl ⟨date, writes, admitted, small, number_eq, rfl⟩)
      | some number =>
        obtain ⟨rfl, -⟩ := (dayNumber?_eq_some admitted).mp number_eq
        by_cases fits : fitsInt32 (dayNumber date)
        · obtain ⟨word, same⟩ := fitsInt32_iff_exists.mp fits
          refine .inl ⟨date, word, writes, admitted, same.symm, (if_pos fits).trans ?_⟩
          rw [← same, ofInt_toInt]
        · exact .inr (.inr (if_neg fits))
    · exact .inr (.inr ((readDay_of_fields fields numbers.1 numbers.2.1 numbers.2.2).2 admitted))
  · refine .inr (.inr ?_)
    unfold readDay
    split
    next y m d fields =>
      cases year : readInt64 y with
      | none => rfl
      | some => cases month : readUInt32 m with
        | none => rfl
        | some => cases day : readUInt32 d with
          | none => rfl
          | some => exact absurd ⟨y, m, d, ⟨_, _, _⟩, fields, year, month, day⟩ read
    next => rfl

theorem readDay_of_writes (writes : Writes text date) (admitted : date.Admitted) {number : Int32}
    (same : dayNumber date = number.toInt) : readDay text = .ok number := by
  have fits : fitsInt32 (dayNumber date) := fitsInt32_iff_exists.mpr ⟨number, same.symm⟩
  obtain ⟨small, number_eq⟩ := dayNumber?_of_int32 admitted fits
  rw [readDay_of_date writes small admitted, number_eq]
  refine (if_pos fits).trans ?_
  rw [same, ofInt_toInt]

/-- A text is read as a day just when its three numbers are a month of the year, a day up to 31 whatever the month, and
a day number of 32 bits. The date it names is that of the number just when it exists. A year too far away for 64-bit
words traps, and every other text is an error. -/
theorem readDay_accepts (text : String) :
    (∀ number, readDay text = .ok number ↔
      ∃ date, Writes text date ∧ date.Admitted ∧ dayNumber date = number.toInt ∧
        (date.Exists ↔ dateOf number.toInt = date)) ∧
    (readDay text = Checked.trap ↔
      ∃ date, Writes text date ∧ date.Admitted ∧ date.year ≤ int64Max ∧ dayNumber? date = none) ∧
    ((∃ number, readDay text = .ok number) ∨ readDay text = Checked.trap ∨
      readDay text = Checked.fail (.unreadable "date" text)) := by
  have named (date : Date) : date.Exists ↔ dateOf (dayNumber date) = date :=
    ⟨dateOf_dayNumber, fun same => same ▸ (dateOf_exists _).1⟩
  refine ⟨fun number => ⟨fun read => ?_, ?_⟩, ⟨fun read => ?_, ?_⟩, ?_⟩
  · obtain ⟨date, number', writes, admitted, same, read'⟩ | ⟨-, -, -, -, -, read'⟩ | read' := readDay_cases text
    · cases read.symm.trans read'
      exact ⟨date, writes, admitted, same, same ▸ named date⟩
    all_goals cases read.symm.trans read'
  · rintro ⟨date, writes, admitted, same, -⟩
    exact readDay_of_writes writes admitted same
  · obtain ⟨_, _, -, -, -, read'⟩ | ⟨date, writes, admitted, small, missing, -⟩ | read' := readDay_cases text
    · cases read.symm.trans read'
    · exact ⟨date, writes, admitted, small, missing⟩
    · cases read.symm.trans read'
  · rintro ⟨date, writes, admitted, small, missing⟩
    rw [readDay_of_date writes small admitted, missing]
    rfl
  · obtain ⟨_, number, -, -, -, read⟩ | ⟨-, -, -, -, -, read⟩ | read := readDay_cases text
    · exact .inl ⟨number, read⟩
    · exact .inr (.inl read)
    · exact .inr (.inr read)

theorem dateText_toList (date : Date) :
    (dateText date).toList = (zeroPaddedInt 4 date.year).toList ++ '-' ::
      ((zeroPadded 2 date.month).toList ++ '-' :: (zeroPadded 2 date.day).toList) := by
  simp [dateText]

theorem dark_dateText (date : Date) : Dark (dateText date).toList := by
  have digits width n := (Numeral.zeroPadded width n).dark.2
  have dash : isBlank '-' = false := by decide
  refine ⟨by simp [dateText_toList], ?_⟩
  rw [dateText_toList, zeroPaddedInt]
  split <;> simp only [String.toList_append, mem_append, mem_cons] <;> grind

theorem trimBlanks_dateText (date : Date) : trimBlanks (dateText date).toList = (dateText date).toList :=
  trimBlanks_eq_self (dark_dateText date) (dark_dateText date) prefix_rfl suffix_rfl

theorem writes_dateText (known : 0 ≤ date.year) : Writes (dateText date) date := by
  obtain ⟨year, same⟩ := Int.eq_ofNat_of_zero_le known
  refine ⟨year, _, _, _, (trimBlanks_dateText date).trans (dateText_toList date), same, .inl ?_,
    .inl (.zeroPadded 2 _), .inl (.zeroPadded 2 _)⟩
  rw [zeroPaddedInt, if_neg (by omega), same]
  exact .zeroPadded 4 year

theorem readDay_dayText (number : Int32) :
    readDay (dayText number) = if 0 ≤ (dateOf number.toInt).year then .ok number
      else fail (.unreadable "date" (dayText number)) := by
  obtain ⟨real, same⟩ := dateOf_exists number.toInt
  split
  next known => exact readDay_of_writes (writes_dateText known) real.admitted same
  next unknown =>
    have parts : splitAll '-' (trimBlanks (dayText number).toList) =
        [[], (zeroPadded 3 (dateOf number.toInt).year.natAbs).toList, (zeroPadded 2 (dateOf number.toInt).month).toList,
          (zeroPadded 2 (dateOf number.toInt).day).toList] := by
      have absent width n : '-' ∉ (zeroPadded width n).toList := (Numeral.zeroPadded width n).not_mem rfl
      rw [dayText, trimBlanks_dateText, dateText_toList, zeroPaddedInt, if_pos (by omega), String.toList_append]
      exact congrArg ([] :: ·) (splitAll_eq_three.mpr ⟨rfl, absent _ _, absent _ _, absent _ _⟩)
    rw [readDay, parts]

theorem timeFields (second : Nat) (inDay : second < secondsPerDay) :
    (splitAll ':' (timeText second).toList).mapM readUInt32 =
      some [second / 3600, second % 3600 / 60, second % 60] := by
  have absent n : ':' ∉ (zeroPadded 2 n).toList := (Numeral.zeroPadded 2 n).not_mem rfl
  have read {n : Nat} (less : n < UInt32.size) : readUInt32 (zeroPadded 2 n).toList = some n :=
    readNat_eq_some.mpr ⟨.inl (.zeroPadded 2 n), less⟩
  have parts : splitAll ':' (timeText second).toList = [(zeroPadded 2 (second / 3600)).toList,
      (zeroPadded 2 (second % 3600 / 60)).toList, (zeroPadded 2 (second % 60)).toList] :=
    splitAll_eq_three.mpr ⟨by simp [timeText], absent _, absent _, absent _⟩
  unfold secondsPerDay at inDay
  rw [parts]
  simp [read (by omega : second / 3600 < 4294967296), read (by omega : second % 3600 / 60 < 4294967296),
    read (by omega : second % 60 < 4294967296)]

theorem readSecond_append {day : Int32} (date : readDay (dayText day) = .ok day) (inDay : second < secondsPerDay) :
    readSecond (dayText day ++ " " ++ timeText second) =
      .ok (Int64.ofInt (day.toInt * secondsPerDay + second)) := by
  have chars : (dayText day ++ " " ++ timeText second).toList =
      (dayText day).toList ++ ' ' :: (timeText second).toList := by simp
  have trimmed : trimBlanks (dayText day ++ " " ++ timeText second).toList =
      (dayText day).toList ++ ' ' :: (timeText second).toList := by
    rw [chars]
    refine trimBlanks_eq_self (dark_dateText _) (Numeral.zeroPadded 2 (second % 60)).dark (prefix_append ..) ?_
    rw [timeText, String.toList_append, ← cons_append, ← append_assoc]
    exact suffix_append ..
  have absent : ' ' ∉ (dayText day).toList := fun member => absurd ((dark_dateText _).2 _ member) (by decide)
  unfold readSecond
  dsimp only
  rw [trimmed, splitFirst_append absent]
  dsimp only [Option.getD]
  rw [String.ofList_toList, date, timeFields _ inDay]
  dsimp only [orFail, bind, Except.bind]
  have whole : second / 3600 * 3600 + second % 3600 / 60 * 60 + second % 60 = second := by omega
  rw [whole, if_neg]
  unfold secondsPerDay at inDay
  omega

theorem thirtieth_of_february_is_read :
    readDay "2024-02-30" = .ok 19783 ∧ ¬ Date.Exists ⟨2024, 2, 30⟩ ∧
      readDay "9223372036854775807-01-01" = Checked.trap := by
  refine ⟨by decide, ?_, by decide⟩
  rw [Date.exists_iff]
  decide

/-- Days and moments are read back from their texts; a day before year 0 is not. -/
theorem texts_read_back :
    (∀ number : Int32, readDay (dayText number) = if 0 ≤ (dateOf number.toInt).year then .ok number
      else Checked.fail (.unreadable "date" (dayText number))) ∧
    ∀ seconds : Int64, fitsInt32 (seconds.toInt / 86400) → 0 ≤ (dateOf (seconds.toInt / 86400)).year →
      readSecond (secondText seconds) = .ok seconds := by
  refine ⟨readDay_dayText, fun seconds fits known => ?_⟩
  obtain ⟨low, high⟩ := fitsInt32_iff.mp fits
  have day : (Int32.ofInt (seconds.toInt / 86400)).toInt = seconds.toInt / 86400 := Int32.toInt_ofInt_of_le low high
  have date := readDay_dayText (Int32.ofInt (seconds.toInt / 86400))
  rw [day, if_pos known] at date
  have inDay : (seconds.toInt % 86400).toNat < secondsPerDay := by
    unfold secondsPerDay
    omega
  have read := readSecond_append date inDay
  rw [day] at read
  have whole : seconds.toInt / 86400 * secondsPerDay + (seconds.toInt % 86400).toNat = seconds.toInt := by
    unfold secondsPerDay
    omega
  rw [whole, Int64.ofInt_toInt] at read
  simp only [secondText, momentOf, secondsPerDay, Nat.cast_ofNat]
  exact read

theorem moment_before_epoch_reads_back :
    secondText (-1) = "1969-12-31 23:59:59" ∧ readSecond (secondText (-1)) = .ok (-1) :=
  ⟨by decide, texts_read_back.2 (-1) (by decide) (by decide)⟩

end Calendar

end QueryEngine
