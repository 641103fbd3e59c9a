import QueryEngine.Text.Number
import Mathlib.Algebra.Group.Int.Defs
import Mathlib.Algebra.Group.Nat.Defs
import Mathlib.Data.List.Basic

namespace QueryEngine

open List Option

theorem fitsInt64_iff {n : Int} : fitsInt64 n ↔ -2 ^ 63 ≤ n ∧ n < 2 ^ 63 := by
  simp only [fitsInt64, Bool.and_eq_true, decide_eq_true_eq]
  simp only [int64Min, int64Max]
  omega

theorem fitsInt64_toInt (n : Int64) : fitsInt64 n.toInt := fitsInt64_iff.mpr ⟨n.le_toInt, n.toInt_lt⟩

/-- Decimal digits, at least one, and the number they write. -/
structure Numeral (cs : List Char) (n : Nat) : Prop where
  present : cs ≠ []
  digits : ∀ c ∈ cs, c.isDigit
  value : Nat.ofDigitChars 10 cs 0 = n

variable {cs part rest : List Char} {n m : Nat} {separator : Char}

theorem readDigitsFrom_eq_some :
    readDigitsFrom n cs = some m ↔ (∀ c ∈ cs, c.isDigit) ∧ Nat.ofDigitChars 10 cs n = m := by
  induction cs generalizing n with
  | nil => simp [readDigitsFrom]
  | cons c cs ih =>
    have digit : '0' ≤ c ∧ c ≤ '9' ↔ c.isDigit := by
      simp [Char.isDigit, Char.le_def]
    rw [readDigitsFrom, digitValue?, Nat.ofDigitChars_cons]
    by_cases isDigit : c.isDigit
    · simp [digit, isDigit, ih]
    · simp [digit, isDigit]

theorem readDigits_eq_some : readDigits cs = some n ↔ Numeral cs n := by
  cases cs with
  | nil => exact ⟨nofun, fun numeral => absurd rfl numeral.present⟩
  | cons c cs =>
    exact readDigitsFrom_eq_some.trans
      ⟨fun ⟨digits, value⟩ => ⟨nofun, digits, value⟩, fun numeral => ⟨numeral.digits, numeral.value⟩⟩

/-- At least one character, and none of them blank. -/
def Dark (cs : List Char) : Prop := cs ≠ [] ∧ ∀ c ∈ cs, isBlank c = false

theorem isBlank_of_isDigit {c : Char} (digit : c.isDigit) : isBlank c = false := by
  simp only [Char.isDigit, Bool.and_eq_true, decide_eq_true_eq, ge_iff_le, UInt32.le_iff_toNat_le] at digit
  simp only [isBlank, blankRanges, any_cons, any_nil, Char.toNat]
  grind

namespace Numeral

theorem zeroPadded (width n : Nat) : Numeral (zeroPadded width n).toList n := by
  have chars : (QueryEngine.zeroPadded width n).toList =
      replicate (width - (toString n).length) '0' ++ Nat.toDigits 10 n := by
    simp [QueryEngine.zeroPadded]
  refine ⟨by simp [chars, Nat.toDigits_ne_nil], fun c member => ?_, ?_⟩
  · rw [chars, mem_append] at member
    obtain zero | digit := member
    · rw [eq_of_mem_replicate zero]
      decide
    · exact Nat.isDigit_of_mem_toDigits (by decide) (by decide) digit
  · rw [chars, Nat.ofDigitChars_append, Nat.ofDigitChars_replicate_zero, Nat.mul_zero, Nat.ofDigitChars_ten_toDigits]

theorem toString (n : Nat) : Numeral (toString n).toList n := by
  simpa [QueryEngine.zeroPadded] using zeroPadded 0 n

theorem not_mem (numeral : Numeral cs n) {c : Char} (other : c.isDigit = false) : c ∉ cs := by
  intro member
  have digit := numeral.digits c member
  rw [other] at digit
  cases digit

theorem dark (numeral : Numeral cs n) : Dark cs :=
  ⟨numeral.present, fun c member => isBlank_of_isDigit (numeral.digits c member)⟩

end Numeral

/-- A numeral after at most one plus sign. -/
def Field (cs : List Char) (n : Nat) : Prop := Numeral cs n ∨ ∃ digits, cs = '+' :: digits ∧ Numeral digits n

theorem field_plus : Field ('+' :: rest) n ↔ Numeral rest n := by
  have signed : ¬ Numeral ('+' :: rest) n := fun numeral => numeral.not_mem (c := '+') rfl (mem_cons_self ..)
  simp [Field, signed]

theorem field_plain (plain : ∀ rest, cs = '+' :: rest → False) : Field cs n ↔ Numeral cs n := by
  simpa [Field] using fun digits same => (plain digits same).elim

theorem readNat_eq_some {limit : Nat} : readNat limit cs = some n ↔ Field cs n ∧ n < limit := by
  unfold readNat
  split
  next => rw [field_plus, filter_eq_some_iff, readDigits_eq_some, decide_eq_true_iff]
  next plain => rw [field_plain plain, filter_eq_some_iff, readDigits_eq_some, decide_eq_true_iff]

theorem Field.not_mem (field : Field cs n) : '-' ∉ cs := by
  obtain numeral | ⟨_, rfl, numeral⟩ := field
  · exact numeral.not_mem rfl
  · simpa using numeral.not_mem rfl

theorem readSigned_eq_some (unsigned : cs.head? ≠ some '-') {k : Int} :
    readSigned cs = some k ↔ ∃ n : Nat, Field cs n ∧ n = k := by
  unfold readSigned
  split
  next => simp [field_plus, readDigits_eq_some]
  next => simp at unsigned
  next plain _ => simp [field_plain plain, readDigits_eq_some]

theorem readInt64_eq_some (unsigned : cs.head? ≠ some '-') {k : Int} :
    readInt64 cs = some k ↔ ∃ n : Nat, Field cs n ∧ n = k ∧ k ≤ int64Max := by
  rw [readInt64, readInt, filter_eq_some_iff, readSigned_eq_some unsigned]
  constructor
  · rintro ⟨⟨n, field, rfl⟩, fits⟩
    exact ⟨n, field, rfl, of_decide_eq_true (Bool.and_eq_true_iff.mp fits).2⟩
  · rintro ⟨n, field, rfl, fits⟩
    refine ⟨⟨n, field, rfl⟩, ?_⟩
    simp [fits, int64Min]

theorem splitAll_eq_splitOn (separator : Char) (cs : List Char) : splitAll separator cs = cs.splitOn separator := by
  induction cs with
  | nil => rfl
  | cons c cs ih =>
    rw [splitAll, ih, splitOn_cons_eq_if_modifyHead]
    cases parts : cs.splitOn separator with
    | nil => exact absurd parts (splitOn_ne_nil _ _)
    | cons part parts => simp

theorem not_mem_of_mem_splitAll (member : part ∈ splitAll separator cs) : separator ∉ part := by
  induction cs generalizing part with
  | nil => simp_all [splitAll]
  | cons c cs ih =>
    rw [splitAll] at member
    split at member
    · obtain rfl | member := mem_cons.mp member
      · exact not_mem_nil
      · exact ih member
    · split at member <;> grind

/-- Three parts are parts of the text around two separators. -/
theorem splitAll_eq_three {first second third : List Char} :
    splitAll separator cs = [first, second, third] ↔
      cs = first ++ separator :: (second ++ separator :: third) ∧
        separator ∉ first ∧ separator ∉ second ∧ separator ∉ third := by
  constructor
  · intro parts
    have absent {part : List Char} (member : part ∈ [first, second, third]) : separator ∉ part :=
      not_mem_of_mem_splitAll (parts ▸ member)
    refine ⟨?_, absent (by simp), absent (by simp), absent (by simp)⟩
    rw [← @intercalate_splitOn _ cs _ _ separator, ← splitAll_eq_splitOn, parts]
    simp
  · rintro ⟨rfl, one, two, three⟩
    rw [splitAll_eq_splitOn, splitOn_append_cons_self_of_not_mem one,
      splitOn_append_cons_self_of_not_mem two, splitOn_eq_singleton three]

theorem splitFirst_append (absent : separator ∉ part) :
    splitFirst separator (part ++ separator :: rest) = some (part, rest) := by
  induction part with
  | nil => simp [splitFirst]
  | cons c part ih =>
    rw [mem_cons, not_or] at absent
    rw [cons_append, splitFirst, if_neg (Ne.symm absent.1), ih absent.2, map_some]

/-- Nothing is cut off a text that starts and ends with characters that are not blank. -/
theorem trimBlanks_eq_self {first last : List Char} (front : Dark first) (back : Dark last) (starts : first <+: cs)
    (ends : last <:+ cs) : trimBlanks cs = cs := by
  have keep {ds : List Char} (dark : Dark ds) (rest : List Char) : (ds ++ rest).dropWhile isBlank = ds ++ rest := by
    cases ds with
    | nil => exact absurd rfl dark.1
    | cons c ds => rw [cons_append, dropWhile_cons_of_neg (by simp [dark.2])]
  have reversed : Dark last.reverse := by simpa [Dark] using back
  obtain ⟨rest, rfl⟩ := starts
  obtain ⟨_, same⟩ := ends
  rw [trimBlanks, keep front, ← same, reverse_append, keep reversed]
  simp

end QueryEngine
