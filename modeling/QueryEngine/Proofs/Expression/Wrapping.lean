import QueryEngine.Proofs.Expression.Exactness

namespace QueryEngine

namespace Datum

variable {x d : Datum} {shape : Shape}

/-- The number that a value is in another shape, cut off after the digits of the shape. -/
def inShape? (shape : Shape) (d : Datum) : Option ℤ :=
  match d, shape with
  | date day, .date => some day.toInt
  | timestamp second, .timestamp => some second.toInt
  | date day, .timestamp => some (day.toInt * 86400)
  | d, .integer => d.rational?.map truncate
  | d, .numeric _ precision => d.rational?.map fun x => truncate (x * 10 ^ precision.toNat)
  | _, _ => none

theorem castTo_decimal_fits (given : x.castTo (.numeric length precision) = some (d, reports))
    (exact : x.inShape? (.numeric length precision) = some n) (calm : Calm reports) : CodeType.i64.fits n = true := by
  have isNumber : x.rational?.map (fun u => truncate (u * 10 ^ precision.toNat)) = some n := by cases x <;> exact exact
  obtain ⟨u, isRational, rfl⟩ := Option.map_eq_some_iff.mp isNumber
  obtain ⟨⟨raw, p⟩, number, rfl⟩ := Option.map_eq_some_iff.mp isRational
  have fits := fits_of_number? number
  rw [castTo_numeric number] at given
  obtain ⟨k, _, _, rescaled, ⟨⟩, rfl⟩ := Evaluation.bind_eq_some given
  by_cases less : p ≤ precision
  · obtain ⟨_, exactly⟩ := Evaluation.rescale_up less fits rescaled
    have scaled : (raw : ℚ) / 10 ^ p.toNat * 10 ^ precision.toNat = k := by
      rw [exactly (calm_append.mp calm).1, ← Nat.sub_add_cancel (UInt8.le_iff_toNat_le.mp less), pow_add]
      field_simp
      simp
    rwa [scaled, truncate_intCast]
  · have more := UInt8.not_le.mp less
    have cut : (raw : ℚ) / 10 ^ p.toNat * 10 ^ precision.toNat = raw / (10 ^ (p.toNat - precision.toNat) : ℤ) := by
      rw [← Nat.sub_add_cancel (UInt8.le_iff_toNat_le.mp (UInt8.le_of_lt more)), pow_add]
      field_simp
      simp
    rw [cut, truncate_div]
    exact CodeType.fits_tdiv fits (by positivity)

/-- A cast reports what does not fit, or is one from a decimal to an integer. -/
theorem castTo_reports (given : x.castTo shape = some (d, reports)) (exact : x.inShape? shape = some n)
    (wide : (registers shape).fits n = false) :
    reports.any Diagnostic.isOverflow = true ∨ (∃ raw p, x = .numeric raw p) ∧ shape = .integer ∧ reports = [] := by
  cases shape with
  | numeric length precision =>
    rw [← Bool.not_eq_false]
    refine .inl fun calm => ?_
    have fits := castTo_decimal_fits given exact calm
    cases fits.symm.trans wide
  | integer =>
    cases x with
    | integer m =>
      have same : truncate (m.toInt / 10 ^ (0 : UInt8).toNat) = n := Option.some.inj exact
      rw [← same, show ((m.toInt : ℚ) / 10 ^ (0 : UInt8).toNat) = m.toInt by simp, truncate_intCast] at wide
      cases (CodeType.fits_int32 m).symm.trans wide
    | numeric raw p =>
      refine .inr ⟨⟨raw, p, rfl⟩, rfl, ?_⟩
      obtain ⟨k, before, _, rescaled, ⟨⟩, rfl⟩ := Evaluation.bind_eq_some given
      by_cases isZero : p = 0
      · subst isZero
        cases rescaled
        rfl
      · rw [(Evaluation.rescale_down (UInt8.pos_iff_ne_zero.mpr isZero) rescaled).1]
        rfl
    | _ => cases exact
  | date =>
    cases x <;> cases exact
    cases (CodeType.fits_int32 _).symm.trans wide
  | timestamp =>
    cases x <;> cases exact
    next day =>
      have fits := CodeType.fits_int32 day
      simp only [CodeType.fits, Bool.and_eq_true, decide_eq_true_eq] at fits
      simp [registers, CodeType.fits] at wide
      omega
    · cases (CodeType.fits_int64 _).symm.trans wide
  | _ => cases x <;> cases exact

end Datum

/-- Between two machines an overflow has been flagged and a diagnostic recorded. -/
def Machine.Flags (m m' : Machine) : Prop :=
  m'.outcome.overflow = true ∧ m.outcome.diagnostics.size < m'.outcome.diagnostics.size

theorem Machine.flags_reportAll (m : Machine) (overflows : reports.any Diagnostic.isOverflow = true) :
    m.Flags (m.reportAll reports) := by
  have some : reports ≠ [] := by
    rintro rfl
    cases overflows
  refine ⟨by simp [reportAll, overflows], ?_⟩
  simpa [reportAll] using List.length_pos_iff.mpr some

namespace Scalar

/-- Quotients with a divisor other than zero, and casts between numbers and times: where the exact result, cut off after
the digits of the type, does not fit the registers of the type, overflow is flagged and a diagnostic is recorded. There are
two exceptions. The quotient of the least number of a width by minus one wraps around, and so does a decimal that is cast
to an integer, of which nothing is reported at all. -/
theorem overflow_is_reported {host : Host} {s : Point} {held : HeldRow} {row : ValueRow} (here : s.At host)
    (is : HeldRow.Is s held row) :
    (∀ (lhs rhs e : Scalar) (h : Held) (b' : Builder) (x y : Datum) (r1 r2 : List Diagnostic) (a b : ℤ) (p q : UInt8),
      makeArithmetic .div lhs rhs = .ok e → e.emit held s.builder = .ok h b' → b'.Within host.function host.program →
      lhs.evaluate row = some (x, r1) → rhs.evaluate row = some (y, r2) → x.HasShape lhs.ty.shape →
      y.HasShape rhs.ty.shape → x.number? = some (a, p) → y.number? = some (b, q) → b ≠ 0 →
      ∃ d s', host.Steps s s' ∧ s'.builder = b' ∧ h.Is s' d ∧
        ((Datum.registers e.ty.shape).fits (truncate ((a : ℚ) / 10 ^ p.toNat / (b / 10 ^ q.toNat) * 10 ^ e.ty.precision.toNat)) =
          false → s.machine.Flags s'.machine ∨
          b = -1 ∧ (a : ℚ) / 10 ^ p.toNat * 10 ^ (e.ty.precision.toNat + q.toNat) =
            if e.ty.shape = .integer then -2 ^ 31 else -2 ^ 63)) ∧
    ∀ (child : Scalar) (ty : ValueType) (h : Held) (b' : Builder) (x : Datum) (r : List Diagnostic) (n : ℤ),
      (cast child ty).emit held s.builder = .ok h b' → b'.Within host.function host.program →
      child.evaluate row = some (x, r) → x.inShape? ty.shape = some n →
      ∃ d s', host.Steps s s' ∧ s'.builder = b' ∧ h.Is s' d ∧
        ((Datum.registers ty.shape).fits n = false → s.machine.Flags s'.machine ∨
          (∃ raw p, x = .numeric raw p) ∧ ty.shape = .integer ∧ s'.machine = s.machine.reportAll r) := by
  refine ⟨?_, ?_⟩
  · intro lhs rhs e h b' x y r1 r2 a b p q made emitted within left right xIs yIs number number' nonzero
    obtain ⟨s', builder, steps, _, _, d, ⟨reports, gives, machine⟩, hIs⟩ := e.attains_emit is h b' emitted within here
    obtain ⟨casts, casts', own, rfl, settles, _⟩ :=
      evaluate_makeArithmetic made left right xIs yIs number number' gives
    refine ⟨d, s', steps, builder, hIs, fun wide => ?_⟩
    by_cases calm : Calm (casts ++ casts' ++ own)
    · rcases settles.value calm fun _ zero => nonzero ((Datum.rational?_eq_zero number').mp zero) with
        ⟨u, v, first, second, exactly⟩ | ⟨_, u, _, first, second, least⟩
      · rw [Datum.rational?, number] at first
        rw [Datum.rational?, number'] at second
        cases first
        cases second
        obtain ⟨n, isNumber, fits⟩ := settles.held
        rw [Datum.rational?, isNumber, Option.map_some, Option.some.injEq, ArithOp.exact,
          div_left_inj' (by positivity), Int.cast_inj] at exactly
        dsimp only at exactly
        rw [exactly] at fits
        cases fits.symm.trans wide
      · rw [Datum.rational?, number] at first
        cases first
        cases number'.symm.trans second
        exact .inr ⟨rfl, least⟩
    · refine .inl ?_
      rw [machine]
      refine s.machine.flags_reportAll ?_
      rw [Bool.not_eq_false] at calm
      simp only [List.any_append, Bool.or_eq_true] at calm ⊢
      tauto
  · intro child ty h b' x r n emitted within given exact
    obtain ⟨s', builder, steps, _, _, d, ⟨reports, gives, machine⟩, hIs⟩ :=
      (cast child ty).attains_emit is h b' emitted within here
    obtain ⟨_, _, casts, first, casted, rfl⟩ := Evaluation.bind_eq_some gives
    cases given.symm.trans first
    have present : x.isNull = false := by
      generalize ty.shape = shape at exact
      cases x with
      | null => cases shape <;> cases exact
      | _ => rfl
    rw [Datum.unlessNull, present] at casted
    refine ⟨d, s', steps, builder, hIs, fun wide => ?_⟩
    rcases Datum.castTo_reports casted exact wide with overflows | ⟨isNumeric, isInteger, rfl⟩
    · refine .inl ?_
      rw [machine]
      exact s.machine.flags_reportAll (by rw [List.any_append, overflows, Bool.or_true])
    · rw [List.append_nil] at machine
      exact .inr ⟨isNumeric, isInteger, machine⟩

namespace Example

/-- `0.000000001`. -/
def tiny : Scalar := .literal (.numeric 1 9) (.numeric 9 9)

/-- The largest integer by a tiny number. -/
def enormous : Scalar := .arithmetic .div (.cast (.column first) (.numeric 10 0)) tiny (.numeric 9 9)

/-- The least integer by minus one. -/
def escaping : Scalar :=
  .arithmetic .div (.literal (.integer (-2147483648)) .integer) (.literal (.integer (-1)) .integer) .integer

end Example

open Example in
theorem overflow_is_reported_enormous : ∃ (host : Host) (s s' : Point) (h : Held) (b' : Builder), s.At host ∧
    HeldRow.Is s Example.held Example.row ∧ makeArithmetic .div (.column first) tiny = .ok enormous ∧
    enormous.emit Example.held s.builder = .ok h b' ∧ b'.Within host.function host.program ∧ host.Steps s s' ∧
    s.machine.Flags s'.machine := by
  obtain ⟨host, s, h, b', here, is, emitted, within⟩ := exists_run enormous (by decide +kernel)
  obtain ⟨d, s', steps, _, _, reported⟩ := (overflow_is_reported here is).1 (.column first) tiny enormous h b'
    (.integer 2147483647) (.numeric 1 9) [] [] 2147483647 1 0 9 rfl emitted within rfl rfl (.integer _) (.numeric _ _ _)
    rfl rfl (by decide)
  refine ⟨host, s, s', h, b', here, is, rfl, emitted, within, steps, (reported ?_).resolve_right nofun⟩
  decide +kernel

open Example in
/-- The least integer by minus one is the least integer again, and nothing is reported. -/
theorem quotient_wraps_silently : ∃ (host : Host) (s s' : Point) (h : Held) (b' : Builder), s.At host ∧
    HeldRow.Is s Example.held Example.row ∧
    makeArithmetic .div (.literal (.integer (-2147483648)) .integer) (.literal (.integer (-1)) .integer) = .ok escaping ∧
    escaping.emit Example.held s.builder = .ok h b' ∧ host.Steps s s' ∧ h.Is s' (.integer (-2147483648)) ∧
    s'.machine = s.machine ∧ CodeType.i32.fits (truncate (-2147483648 / -1)) = false := by
  obtain ⟨host, s, h, b', here, is, emitted, within⟩ := exists_run escaping (by decide +kernel)
  obtain ⟨s', _, steps, _, _, d, ⟨reports, gives, machine⟩, hIs⟩ := escaping.attains_emit is h b' emitted within here
  have evaluated : escaping.evaluate Example.row = some (.integer (-2147483648), []) := rfl
  cases gives.symm.trans evaluated
  exact ⟨host, s, s', h, b', here, is, rfl, emitted, steps, hIs, machine.trans (Machine.reportAll_nil _), by decide +kernel⟩

end Scalar

end QueryEngine
