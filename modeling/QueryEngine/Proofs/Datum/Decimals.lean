import QueryEngine.Datum
import QueryEngine.Proofs.Text.Numerals

namespace QueryEngine

theorem splitFirst_of_not_mem {separator : Char} {cs : List Char} (absent : separator ∉ cs) :
    splitFirst separator cs = none := by
  induction cs with
  | nil => rfl
  | cons c cs ih =>
    rw [List.mem_cons, not_or] at absent
    rw [splitFirst, if_neg (Ne.symm absent.1), ih absent.2, Option.map_none]

theorem zeroPadded_length {width n : Nat} (some : 0 < width) (less : n < 10 ^ width) :
    (zeroPadded width n).toList.length = width := by
  have short := (Nat.length_toDigits_le_iff (by decide : 1 < 10) some).mpr less
  simp [zeroPadded, Nat.repr_eq_ofList_toDigits]
  omega

theorem byteLength_of_digits {cs : List Char} (digits : ∀ c ∈ cs, c.isDigit) : byteLength (String.ofList cs) = cs.length := by
  induction cs with
  | nil => rfl
  | cons c cs ih =>
    have small : c.utf8Size = 1 := by
      have digit := digits c (List.mem_cons_self ..)
      simp only [Char.isDigit, Bool.and_eq_true, decide_eq_true_eq] at digit
      exact Char.utf8Size_eq_one_iff.mpr (UInt32.le_trans digit.2 (by decide))
    have rest := ih fun c member => digits c (List.mem_cons_of_mem _ member)
    rw [byteLength] at rest ⊢
    rw [String.ofList_cons, String.utf8ByteSize_append, String.utf8ByteSize_singleton, small, rest, List.length_cons,
      Nat.add_comm]

namespace Decimal

variable {precision : UInt8} {cs whole fraction : List Char} {magnitude units parts : Nat}

theorem powerOfTen?_eq (small : precision ≤ 18) : powerOfTen? precision = some ((10 ^ precision.toNat : Nat) : Int) := by
  rw [powerOfTen?, if_pos small, Int.natCast_pow]
  rfl

theorem readInt64_numeral (numeral : Numeral whole units) (fits : units < 2 ^ 63) : readInt64 whole = some (units : Int) := by
  have unsigned : whole.head? ≠ some '-' := fun head => numeral.not_mem rfl (List.mem_of_mem_head? head)
  exact (readInt64_eq_some unsigned).mpr ⟨units, .inl numeral, rfl, by unfold int64Max; omega⟩

theorem readFraction_numeral {cause : DatumError} (numeral : Numeral fraction parts) (small : parts < 2 ^ 63)
    (length : fraction.length = precision.toNat) : readFraction cause precision fraction = .ok (parts : Int) := by
  have filled : ¬ fraction.isEmpty = true := by simp [numeral.present]
  have fits : fitsInt64 ((parts : Int) * 1) := by
    rw [fitsInt64_iff]
    omega
  have factor : powerOfTen? (UInt8.ofNat (precision.toNat - byteLength (String.ofList fraction))) = some 1 := by
    rw [byteLength_of_digits numeral.digits, length, Nat.sub_self]
    rfl
  rw [readFraction, if_neg filled, readInt64_numeral numeral small, factor]
  dsimp only [Checked.orFail, Checked.orTrap, bind, Except.bind]
  rw [if_pos fits, Int.mul_one]

/-- The characters of a number without its sign, which stands for `magnitude / 10 ^ precision`. -/
inductive Literal (precision : UInt8) : (magnitude : Nat) → List Char → Prop
  | whole {cs : List Char} {units : Nat} (none : precision = 0) (numeral : Numeral cs units) : Literal precision units cs
  | point {whole fraction : List Char} {units parts : Nat} (numeral : Numeral whole units)
    (fractional : Numeral fraction parts) (length : fraction.length = precision.toNat) :
    Literal precision (units * 10 ^ precision.toNat + parts) (whole ++ '.' :: fraction)

namespace Literal

theorem dark (literal : Literal precision magnitude cs) : Dark cs := by
  cases literal with
  | whole _ numeral => exact numeral.dark
  | point numeral fractional =>
    refine ⟨by simp, fun c member => ?_⟩
    obtain digit | rfl | digit := by simpa using member
    · exact numeral.dark.2 c digit
    · decide
    · exact fractional.dark.2 c digit

theorem unsigned (literal : Literal precision magnitude cs) : '-' ∉ cs := by
  cases literal with
  | whole _ numeral => exact numeral.not_mem rfl
  | point numeral fractional => simp [numeral.not_mem (c := '-') rfl, fractional.not_mem (c := '-') rfl]

/-- A literal is read part by part: what stands before the point, and what stands behind it. -/
theorem split (literal : Literal precision magnitude cs) (fits : magnitude < 2 ^ 63) : ∃ whole fraction units parts,
    (splitFirst '.' cs).getD (cs, []) = (whole, fraction) ∧ Numeral whole units ∧
    byteLength (String.ofList fraction) ≤ precision.toNat ∧
    (∀ cause, readFraction cause precision fraction = .ok (parts : Nat)) ∧
    units * 10 ^ precision.toNat + parts = magnitude := by
  cases literal with
  | whole none numeral =>
    have split := splitFirst_of_not_mem (numeral.not_mem (c := '.') rfl)
    exact ⟨cs, [], magnitude, 0, by rw [split]; rfl, numeral, Nat.zero_le _, fun _ => rfl, by simp [none]⟩
  | point numeral fractional length =>
    refine ⟨_, _, _, _, ?_, numeral, ?_, fun _ => readFraction_numeral fractional (by omega) length, rfl⟩
    · rw [splitFirst_append (numeral.not_mem (c := '.') rfl), Option.getD_some]
    · exact Nat.le_of_eq ((byteLength_of_digits fractional.digits).trans length)

theorem read {text : String} {negative : Bool} (literal : Literal precision magnitude cs) (small : precision ≤ 18)
    (chars : text.toList = if negative then '-' :: cs else cs) (fits : magnitude < 2 ^ 63) :
    Decimal.read text precision = .ok (Int64.ofInt (if negative then -magnitude else magnitude)) := by
  obtain ⟨whole, fraction, units, parts, split, numeral, short, rest, sum⟩ := literal.split fits
  have least : units ≤ units * 10 ^ precision.toNat := Nat.le_mul_of_pos_right _ (Nat.pos_of_neZero _)
  have sum' : (units : Int) * 10 ^ precision.toNat + parts = magnitude := by exact_mod_cast sum
  have scaled : fitsInt64 ((units : Int) * 10 ^ precision.toNat) := by
    rw [fitsInt64_iff]
    omega
  have summed : fitsInt64 (magnitude : Int) ∧ fitsInt64 (-magnitude : Int) := by
    rw [fitsInt64_iff, fitsInt64_iff]
    omega
  have filled : ¬ whole.isEmpty = true := by simp [numeral.present]
  have plain (rest : List Char) : cs ≠ '-' :: rest := fun same => literal.unsigned (same ▸ List.mem_cons_self)
  have read := readInt64_numeral numeral (by omega)
  have trimmed : trimBlanks text.toList = text.toList := by
    have minus : Dark ['-'] := ⟨by decide, List.forall_mem_singleton.mpr (by decide)⟩
    rw [chars]
    cases negative with
    | true => exact trimBlanks_eq_self minus literal.dark (List.prefix_append ['-'] cs) (List.suffix_cons '-' cs)
    | false => exact trimBlanks_eq_self literal.dark literal.dark List.prefix_rfl List.suffix_rfl
  unfold Decimal.read
  rw [trimmed, chars]
  cases negative
  all_goals
    simp [split, filled, Nat.not_lt.mpr short, read, rest, powerOfTen?_eq small, sum', scaled, summed, int64?,
      Checked.orFail, Checked.orTrap, bind, Except.bind]

end Literal

theorem text?_literal (raw : Int64) (small : precision ≤ 18) : ∃ text cs, text? raw precision = some text ∧
    Literal precision raw.toInt.natAbs cs ∧ text.toList = if decide (raw.toInt < 0) then '-' :: cs else cs := by
  unfold text?
  split
  next none =>
    refine ⟨_, _, rfl, .whole none (.toString _), ?_⟩
    rw [Int.toString_eq_repr, Int.repr_eq_if]
    obtain below | above := Int.lt_or_le raw.toInt 0
    · rw [if_neg (by omega), (by omega : (-raw.toInt).toNat = raw.toInt.natAbs)]
      simp [below]
    · rw [if_pos above, (by omega : raw.toInt.toNat = raw.toInt.natAbs)]
      simp [Int.not_lt.mpr above]
  next some =>
    have positive : 0 < precision.toNat := Nat.pos_of_ne_zero fun zero => some (UInt8.toNat_inj.mp zero)
    have literal : Literal precision _ _ := .point (.toString (raw.toInt.natAbs / 10 ^ precision.toNat))
      (.zeroPadded precision.toNat (raw.toInt.natAbs % 10 ^ precision.toNat))
      (zeroPadded_length positive (Nat.mod_lt _ (Nat.pos_of_neZero _)))
    rw [Nat.div_add_mod'] at literal
    simp only [powerOfTen?_eq small, bind, Option.bind, Int.toNat_natCast]
    refine ⟨_, _, rfl, literal, ?_⟩
    obtain below | above := Int.lt_or_le raw.toInt 0
    · simp [below]
    · simp [Int.not_lt.mpr above]

theorem read_text {raw : Int64} (known : raw ≠ Int64.minValue) (small : precision ≤ 18) :
    ∃ text, text? raw precision = some text ∧ read text precision = .ok raw := by
  have low := raw.le_toInt
  have high := raw.toInt_lt
  have least : raw.toInt ≠ -2 ^ 63 := fun same => known (Int64.toInt_inj.mp same)
  obtain ⟨text, cs, written, literal, chars⟩ := text?_literal raw small
  refine ⟨text, written, ?_⟩
  rw [literal.read small chars (by omega)]
  obtain below | above := Int.lt_or_le raw.toInt 0
  · simp [below, Int.ofNat_natAbs_of_nonpos (Int.le_of_lt below)]
  · simp [Int.not_lt.mpr above, Int.natAbs_of_nonneg above]

/-- Every number but the least is read back from its decimal text. -/
theorem text_reads_back (precision : UInt8) (small : precision ≤ 18) :
    (∀ raw : Int64, raw ≠ Int64.minValue → ∃ text, text? raw precision = some text ∧ read text precision = .ok raw) ∧
    ∀ raw raw' : Int64, raw ≠ Int64.minValue → raw' ≠ Int64.minValue →
      text? raw precision = text? raw' precision → raw = raw' := by
  refine ⟨fun raw known => read_text known small, fun raw raw' known known' same => ?_⟩
  obtain ⟨text, written, read⟩ := read_text known small
  obtain ⟨text', written', read'⟩ := read_text known' small
  rw [written, written', Option.some.injEq] at same
  rw [same, read'] at read
  exact (Except.ok.inj read).symm

theorem least_fraction_reads_back :
    text? (-5) 2 = some "-0.05" ∧ ∃ text, text? (-5) 2 = some text ∧ read text 2 = .ok (-5) :=
  ⟨by decide, (text_reads_back 2 (by decide)).1 (-5) (by decide)⟩

end Decimal

end QueryEngine
