import QueryEngine.Proofs.Expression.Wrapping

namespace QueryEngine

open Option CodeType

/-- A number with other fractional digits: none if it is out of range then. -/
def Decimal.scaled? (n : Int) (source target : UInt8) : Option (Option Int64) :=
  if source ≤ target then (powerOfTen? (target - source)).bind fun factor => some (int64? (n * factor))
  else (powerOfTen? (source - target)).bind fun factor => some (some (Int64.ofInt (n.tdiv factor)))

/-- The digits that code gives a number are those that coercion gives it. -/
theorem Evaluation.rescale_scaled? (fits : i64.fits n = true) (given : rescale n p q = some (k, reports)) :
    ∃ raw?, Decimal.scaled? n p q = some raw? ∧
      (∀ raw, raw? = some raw → Int64.ofInt k = raw ∧ reports = []) ∧
      (raw? = none → reports.any Diagnostic.isOverflow = true) := by
  unfold rescale at given
  unfold Decimal.scaled?
  by_cases same : q = p
  · subst same
    rw [if_pos rfl] at given
    cases given
    have one : powerOfTen? (q - q) = some 1 := by
      rw [UInt8.sub_self]
      rfl
    have kept : int64? (n * 1) = some (Int64.ofInt n) := by
      rw [Int.mul_one]
      exact if_pos fits
    rw [if_pos (UInt8.le_refl q), one, bind_some, kept]
    exact ⟨_, rfl, fun raw same => ⟨some.inj same, rfl⟩, nofun⟩
  rw [if_neg same] at given
  by_cases less : p < q
  · rw [if_pos less] at given
    obtain ⟨factor, before, after, isFactor, product, rfl⟩ := bind_eq_some given
    obtain ⟨_, found, ⟨⟩⟩ := map_eq_some_iff.mp isFactor
    cases product
    rw [if_pos (UInt8.le_of_lt less), found, bind_some]
    refine ⟨_, rfl, fun raw inside => ?_, fun outside => ?_⟩
    · obtain ⟨inRange, isRaw⟩ := ite_none_right_eq_some.mp inside
      refine ⟨(int64_ofInt_wrap _).trans (some.inj isRaw), ?_⟩
      exact if_pos inRange
    · have outOfRange : ¬i64.fits (n * factor) = true := by
        rintro inRange
        cases (if_pos inRange).symm.trans outside
      rw [if_neg outOfRange]
      rfl
  · rw [if_neg less] at given
    have more : q < p := UInt8.lt_of_le_of_ne (UInt8.not_lt.mp less) same
    obtain ⟨factor, before, after, isFactor, quotient, rfl⟩ := bind_eq_some given
    obtain ⟨_, found, ⟨⟩⟩ := map_eq_some_iff.mp isFactor
    cases quotient
    rw [if_neg (UInt8.not_le.mpr more), found, bind_some]
    exact ⟨_, rfl, fun raw same => ⟨some.inj same, rfl⟩, nofun⟩

namespace Datum

variable {d : Datum} {ty : ValueType}

/-- What coercion of a number to decimals does. -/
theorem coerce_number (number : d.number? = some (n, p)) (shape : ty.shape = .numeric length precision) : d.coerce ty = (do
      match ← Checked.orTrap (Decimal.scaled? n p precision) with
      | some raw => .ok (numeric raw precision)
      | none => d.mismatch ty) := by
  cases d with
  | integer n =>
    cases number
    simp only [coerce, shape, Decimal.scaled?, if_pos UInt8.zero_le, UInt8.sub_zero]
    cases powerOfTen? precision <;> rfl
  | numeric raw =>
    cases number
    simp only [coerce, shape]
    rfl
  | _ => cases number

/-- Where there is code for a cast, it gives what coercion gives, and reports what is out of range. -/
theorem castTo_agrees (given : d.castTo ty.shape = some (x, reports)) :
    (∀ v, d.coerce ty = .ok v → x = v ∧ reports = []) ∧
    ∀ shown, ty.isNumeric = true → d.coerce ty = Checked.fail (.mismatch shown ty) → reports.any Diagnostic.isOverflow = true := by
  unfold ValueType.isNumeric
  generalize shape : ty.shape = kind at given
  cases kind with
  | numeric length precision =>
    obtain ⟨⟨n, p⟩, number⟩ : ∃ number, d.number? = some number := by
      cases d <;> first | exact ⟨_, rfl⟩ | cases given
    rw [castTo_numeric number] at given
    obtain ⟨k, before, _, rescaled, ⟨⟩, rfl⟩ := Evaluation.bind_eq_some given
    obtain ⟨raw?, scaled, inside, outside⟩ := Evaluation.rescale_scaled? (fits_of_number? number) rescaled
    rw [coerce_number number shape, scaled, List.append_nil]
    cases raw? with
    | none => exact ⟨fun v coerced => absurd coerced mismatch_ne_ok, fun _ _ _ => outside rfl⟩
    | some raw =>
      obtain ⟨same, silent⟩ := inside raw rfl
      rw [same]
      refine ⟨fun v coerced => ?_, fun _ _ failed => by cases failed⟩
      cases coerced
      exact ⟨rfl, silent⟩
  | timestamp =>
    refine ⟨fun v coerced => ?_, fun _ isNumeric => by cases isNumeric⟩
    cases d <;> cases given <;> simp only [coerce, shape] at coerced <;> cases coerced
    next day =>
      have fits : i64.fits (day.toInt * 86400) = true := by
        have small := fits_int32 day
        simp only [fits, Bool.and_eq_true, decide_eq_true_eq] at small ⊢
        omega
      refine ⟨congrArg timestamp (int64_ofInt_wrap _), ?_⟩
      rw [if_pos fits, List.append_nil]
    · exact ⟨rfl, rfl⟩
  | unknown | bool | date =>
    refine ⟨fun v coerced => ?_, fun _ isNumeric => by cases isNumeric⟩
    cases d <;> cases given
    all_goals simp only [coerce, shape] at coerced
    all_goals exact ⟨Except.ok.inj coerced, rfl⟩
  | integer =>
    refine ⟨fun v coerced => ?_, fun _ isNumeric => by cases isNumeric⟩
    cases d <;> try cases given
    all_goals simp only [coerce, shape] at coerced
    · exact ⟨Except.ok.inj coerced, rfl⟩
    · exact absurd coerced mismatch_ne_ok
  | char | varchar =>
    refine ⟨fun v coerced => ?_, fun _ isNumeric => by cases isNumeric⟩
    cases d <;> cases given
    all_goals
      simp only [coerce, shape] at coerced
      split at coerced
      · exact ⟨Except.ok.inj coerced, rfl⟩
      · exact absurd coerced mismatch_ne_ok

end Datum

namespace Scalar

/-- Wherever the code of a cast of a literal has been emitted, a run of it comes to its end. If coercion of the literal to the
type gives a value, the registers hold that value, nothing has been reported, and to coerce it once more, as a table does,
leaves it alone. If coercion to decimals finds the literal out of range, overflow is flagged. -/
theorem cast_literal_coerces {host : Host} {s : Point} {held : HeldRow} {row : ValueRow} {d : Datum} {literal : Scalar}
    {ty : ValueType} {h : Held} {b' : Builder} (here : s.At host) (is : HeldRow.Is s held row)
    (made : constant? d = some literal) (short : ∀ text, d = .char text ∨ d = .varchar text → byteLength text ≤ 65535)
    (emitted : (cast literal ty).emit held s.builder = .ok h b')
    (within : b'.Within host.function host.program) :
    ∃ x s', host.Steps s s' ∧ s'.builder = b' ∧ h.Is s' x ∧
      (∀ v, d.coerce ty = .ok v → x = v ∧ s'.machine = s.machine ∧ v.coerce ty = .ok v) ∧
      ∀ shown, ty.isNumeric = true → d.coerce ty = Checked.fail (.mismatch shown ty) → s.machine.Flags s'.machine := by
  obtain ⟨s', builder, steps, _, _, x, ⟨reports, gives, machine⟩, hIs⟩ :=
    (cast literal ty).attains_emit is h b' emitted within here
  refine ⟨x, s', steps, builder, hIs, ?_⟩
  obtain ⟨y, before, after, isLiteral, casted, rfl⟩ := Evaluation.bind_eq_some gives
  have given : y = d ∧ before = [] := by
    unfold constant? at made
    split at made
    next null =>
      cases made
      cases isLiteral
      cases d <;> first | exact ⟨rfl, rfl⟩ | cases null
    next notNull =>
      obtain ⟨natural, isNatural, rfl⟩ := Option.map_eq_some_iff.mp made
      have coerced := Datum.naturalType?_coerced isNatural (Bool.eq_false_of_not_eq_true notNull) short
      rw [evaluate, if_neg notNull, show d.coerce natural.asNotNull = .ok d from coerced.coerce rfl] at isLiteral
      cases isLiteral
      exact ⟨rfl, rfl⟩
  obtain ⟨rfl, rfl⟩ := given
  rw [List.nil_append] at machine
  unfold Datum.unlessNull at casted
  split at casted
  next null =>
    cases casted
    obtain rfl : y = .null := by cases y <;> first | rfl | cases null
    by_cases nullable : ty.nullable = true
    · have same : Datum.null.coerce ty = .ok .null := if_pos nullable
      refine ⟨fun v coerced => ?_, fun shown _ refused => nomatch same.symm.trans refused⟩
      cases same.symm.trans coerced
      exact ⟨rfl, machine.trans (Machine.reportAll_nil _), same⟩
    · have refused : Datum.null.coerce ty = Checked.fail (.nullNotAllowed ty) := if_neg nullable
      refine ⟨fun v coerced => ?_, fun shown _ other => ?_⟩
      · cases refused.symm.trans coerced
      · cases refused.symm.trans other
  · obtain ⟨same, overflows⟩ := Datum.castTo_agrees casted
    refine ⟨fun v coerced => ?_, fun shown numeric refused => ?_⟩
    · obtain ⟨rfl, rfl⟩ := same v coerced
      exact ⟨rfl, machine.trans (Machine.reportAll_nil _), Datum.coerce_coerce coerced⟩
    · rw [machine]
      exact s.machine.flags_reportAll (overflows shown numeric refused)

open Example in
/-- Three digits after the point become two. -/
theorem cast_literal_coerces_cut : ∃ (host : Host) (s s' : Point) (h : Held) (b' : Builder), s.At host ∧
    constant? (.numeric 12345 3) = some (.literal (.numeric 12345 3) (.numeric 5 3)) ∧
    (cast (.literal (.numeric 12345 3) (.numeric 5 3)) (.numeric 6 2)).emit Example.held s.builder = .ok h b' ∧
    b'.Within host.function host.program ∧ (Datum.numeric 12345 3).coerce (.numeric 6 2) = .ok (.numeric 1234 2) ∧
    host.Steps s s' ∧ h.Is s' (.numeric 1234 2) ∧ s'.machine = s.machine := by
  obtain ⟨host, s, h, b', here, is, emitted, within⟩ :=
    exists_run (cast (.literal (.numeric 12345 3) (.numeric 5 3)) (.numeric 6 2)) (by decide +kernel)
  have coerced : (Datum.numeric 12345 3).coerce (.numeric 6 2) = .ok (.numeric 1234 2) := rfl
  have made : constant? (.numeric 12345 3) = some (.literal (.numeric 12345 3) (.numeric 5 3)) := rfl
  obtain ⟨x, s', steps, _, hIs, same, _⟩ := cast_literal_coerces here is made (by simp) emitted within
  obtain ⟨rfl, machine, _⟩ := same _ coerced
  exact ⟨host, s, s', h, b', here, made, emitted, within, coerced, steps, hIs, machine⟩

end Scalar

end QueryEngine
