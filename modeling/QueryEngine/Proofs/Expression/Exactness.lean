import Mathlib.Algebra.Order.Floor.Ring
import Mathlib.Data.Rat.Floor
import Mathlib.Tactic.FieldSimp
import Mathlib.Tactic.Ring
import QueryEngine.Proofs.Expression.Construction

namespace QueryEngine

open List CodeType Option Evaluation ValueType Datum ArithOp

variable {row : ValueRow} {op : ArithOp} {lhs rhs e : Scalar} {x y d : Datum} {r1 r2 reports : List Diagnostic}
  {a b n : ℤ} {p q precision : UInt8} {ty : ValueType}

/-- Rounds toward zero. -/
def truncate (x : ℚ) : ℤ := if 0 ≤ x then ⌊x⌋ else ⌈x⌉

theorem truncate_neg (x : ℚ) : truncate (-x) = -truncate x := by
  unfold truncate
  rcases lt_trichotomy x 0 with negative | rfl | positive
  · rw [if_pos (by linarith), if_neg (by linarith), Int.floor_neg]
  · simp
  · rw [if_neg (by linarith), if_pos (by linarith), Int.ceil_neg]

theorem truncate_intCast (n : ℤ) : truncate n = n := by
  unfold truncate
  split <;> simp

theorem truncate_div (a b : ℤ) : truncate ((a : ℚ) / b) = a.tdiv b := by
  have natural (n k : ℕ) : truncate ((n : ℚ) / k) = n / k := by
    rw [truncate, if_pos (by positivity)]
    exact Rat.floor_natCast_div_natCast n k
  obtain ⟨n, rfl | rfl⟩ := a.eq_nat_or_neg
  all_goals
    obtain ⟨k, rfl | rfl⟩ := b.eq_nat_or_neg
    all_goals
      simp only [Int.cast_neg, Int.cast_natCast, neg_div, div_neg, neg_neg, truncate_neg, natural, Int.neg_tdiv, Int.tdiv_neg]
      rfl

/-- A quotient of numbers of a width is one of it, but for its least number by minus one. -/
theorem CodeType.fits_quotient {ty : CodeType} (fits : ty.fits a = true) (divisor : b ≠ 0) :
    ty.fits (a.tdiv b) = true ∨ b = -1 ∧ ty.fits (-a) = false := by
  rcases lt_or_gt_of_ne divisor with negative | positive
  · by_cases least : b = -1
    · subst least
      rw [Int.tdiv_neg, Int.tdiv_one]
      cases opposite : ty.fits (-a) with
      | true => exact .inl rfl
      | false => exact .inr ⟨rfl, rfl⟩
    · -- The divisor is at most minus two, so the quotient is at most oneAndHalf as large.
      have oneAndHalf : 2 * (a.tdiv b).natAbs ≤ a.natAbs := by
        rw [Int.natAbs_tdiv]
        calc 2 * (a.natAbs / b.natAbs) ≤ b.natAbs * (a.natAbs / b.natAbs) := Nat.mul_le_mul_right _ (by omega)
          _ ≤ a.natAbs := Nat.mul_div_le _ _
      have sign : 0 ≤ a → a.tdiv b ≤ 0 := fun nonneg => by
        have opposite := Int.tdiv_nonneg nonneg (by omega : 0 ≤ -b)
        rw [Int.tdiv_neg] at opposite
        omega
      left
      cases ty <;> simp only [CodeType.fits, Bool.and_eq_true, decide_eq_true_eq] at fits ⊢ <;> omega
  · exact .inl (fits_tdiv fits positive)

theorem Evaluation.bind_eq_some {α β : Type} {first : Evaluation α} {next : α → Evaluation β} {y : β}
    (given : (first >>= next) = some (y, reports)) : ∃ x before after,
      first = some (x, before) ∧ next x = some (y, after) ∧ reports = before ++ after := by
  obtain ⟨⟨x, before⟩, isFirst, given⟩ := bind_eq_some_iff.mp given
  obtain ⟨⟨z, after⟩, isNext, ⟨⟩⟩ := map_eq_some_iff.mp given
  exact ⟨x, before, after, isFirst, isNext, rfl⟩

/-- No overflow is among the diagnostics. -/
abbrev Calm (reports : List Diagnostic) : Prop := reports.any Diagnostic.isOverflow = false

theorem calm_append : Calm (first ++ second) ↔ Calm first ∧ Calm second := by
  simp [Calm]

namespace ArithOp

variable {ty : CodeType}

def onIntegers : ArithOp → ℤ → ℤ → ℤ
  | add, a, b => a + b
  | sub, a, b => a - b
  | mul, a, b => a * b
  | div, a, b => a.tdiv b

/-- The exact result. A quotient is cut off after `digits` fractional digits. -/
def exact (op : ArithOp) (digits : ℕ) (x y : ℚ) : ℚ :=
  match op with
  | add => x + y
  | sub => x - y
  | mul => x * y
  | div => truncate (x / y * 10 ^ digits) / 10 ^ digits

theorem fits_compute (given : op.compute ty a b = some (n, reports)) : ty.fits n = true := by
  cases op with
  | add | sub | mul =>
    cases given
    exact ty.fits_wrap _
  | div =>
    unfold compute at given
    dsimp only at given
    split at given
    · cases given
      exact fits_ofBool false
    · cases given
      exact ty.fits_wrap _

theorem compute_exact (left : ty.fits a = true) (given : op.compute ty a b = some (n, reports)) (calm : Calm reports)
    (divisor : op = .div → b ≠ 0) : n = op.onIntegers a b ∨ op = .div ∧ b = -1 ∧ ty.fits (-a) = false := by
  have checked {k : ℤ} (same : n = ty.wrap k) (reported : reports = if ty.fits k then [] else [.overflow op ty]) :
      n = k := by
    cases fits : ty.fits k with
    | true => rw [same, wrap_of_fits fits]
    | false =>
      rw [reported, fits] at calm
      cases calm
  cases op with
  | add | sub | mul =>
    cases given
    exact .inl (checked rfl rfl)
  | div =>
    unfold compute at given
    rw [if_neg (divisor rfl)] at given
    cases given
    exact (ty.fits_quotient left (divisor rfl)).imp wrap_of_fits fun escapes => ⟨rfl, escapes⟩

end ArithOp

namespace Evaluation

variable {target : UInt8}

theorem powerOfTen?_eq (found : powerOfTen? exponent = some factor) : factor = 10 ^ exponent.toNat := by
  unfold powerOfTen? at found
  split at found
  · cases found
    rfl
  · cases found

/-- More digits. -/
theorem rescale_up (less : p ≤ target) (fits : i64.fits a = true)
    (given : rescale a p target = some (n, reports)) : i64.fits n = true ∧
      (Calm reports → n = a * 10 ^ (target.toNat - p.toNat)) := by
  unfold rescale at given
  split at given
  next same =>
    cases given
    exact ⟨fits, fun _ => by simp [same]⟩
  next different =>
    have more : p < target := UInt8.lt_of_le_of_ne less (Ne.symm different)
    rw [if_pos more] at given
    obtain ⟨_, _, _, isFactor, multiplied, rfl⟩ := bind_eq_some given
    obtain ⟨_, found, ⟨⟩⟩ := map_eq_some_iff.mp isFactor
    refine ⟨fits_compute multiplied, fun calm => ?_⟩
    have product := (compute_exact fits multiplied calm nofun).resolve_right nofun
    rw [product, powerOfTen?_eq found, UInt8.toNat_sub_of_le _ _ less]
    rfl

/-- Fewer digits. -/
theorem rescale_down (less : target < p) (given : rescale a p target = some (n, reports)) :
    reports = [] ∧ n = a.tdiv (10 ^ (p.toNat - target.toNat)) := by
  unfold rescale at given
  rw [if_neg (UInt8.ne_of_lt less), if_neg (UInt8.not_lt.mpr (UInt8.le_of_lt less))] at given
  obtain ⟨_, _, _, isFactor, divided, rfl⟩ := bind_eq_some given
  obtain ⟨_, found, ⟨⟩⟩ := map_eq_some_iff.mp isFactor
  cases divided
  rw [powerOfTen?_eq found, UInt8.toNat_sub_of_le _ _ (UInt8.le_of_lt less)]
  exact ⟨rfl, rfl⟩

end Evaluation

/-- The digits that operands of decimal arithmetic have where the result has `precision` of them. -/
def ArithOp.Aligned (op : ArithOp) (precision p q : UInt8) : Prop :=
  match op with
  | .add | .sub => p = precision ∧ q = precision
  | .mul => precision.toNat = p.toNat + q.toNat
  | .div => p ≤ precision

theorem ArithOp.computeDecimal_exact {precision p : UInt8}
    (aligned : op.Aligned precision p q) (left : CodeType.i64.fits a = true)
    (given : op.computeDecimal precision a p b q = some (n, reports)) : CodeType.i64.fits n = true ∧
      (Calm reports → (op = .div → b ≠ 0) →
        (n : ℚ) / 10 ^ precision.toNat = op.exact precision.toNat (a / 10 ^ p.toNat) (b / 10 ^ q.toNat) ∨
        op = .div ∧ b = -1 ∧ (a : ℚ) / 10 ^ p.toNat * 10 ^ (precision.toNat + q.toNat) = -2 ^ 63) ∧
      (op = .div → b = 0 → .divisionByZero ∈ reports) := by
  have same (k : ℤ) (digits : UInt8) : rescale k digits digits = pure k := if_pos rfl
  have sum (linear : op = .add ∨ op = .sub) (given : op.compute .i64 a b = some (n, reports)) (calm : Calm reports) :
      n = op.onIntegers a b := by
    refine (compute_exact left given calm ?_).resolve_right ?_ <;> rcases linear with rfl | rfl <;> nofun
  cases op with
  | add | sub =>
    obtain ⟨rfl, rfl⟩ := aligned
    unfold computeDecimal at given
    rw [same, same, pure_bind, pure_bind] at given
    refine ⟨fits_compute given, fun calm _ => .inl ?_, nofun⟩
    rw [sum (by decide) given calm]
    simp only [onIntegers, exact, Int.cast_add, Int.cast_sub, add_div, sub_div]
  | mul =>
    obtain ⟨product, before, after, multiplied, rest, rfl⟩ := bind_eq_some given
    obtain ⟨digits, _, _, isDigits, rescaled, rfl⟩ := bind_eq_some rest
    obtain ⟨_, found, ⟨⟩⟩ := Option.map_eq_some_iff.mp isDigits
    have all : digits = precision :=
      UInt8.toNat_inj.mp ((ValueType.addBytes?_toNat found).trans (show precision.toNat = _ from aligned).symm)
    rw [all, same] at rescaled
    cases rescaled
    refine ⟨fits_compute multiplied, fun calm _ => .inl ?_, nofun⟩
    rw [(compute_exact left multiplied (calm_append.mp calm).1 nofun).resolve_right nofun,
      show precision.toNat = _ from aligned]
    simp only [onIntegers, exact, Int.cast_mul, pow_add]
    exact (div_mul_div_comm _ _ _ _).symm
  | div =>
    have few : p.toNat ≤ precision.toNat := UInt8.le_iff_toNat_le.mp aligned
    obtain ⟨digits, _, _, isDigits, rest, rfl⟩ := bind_eq_some given
    obtain ⟨_, found, ⟨⟩⟩ := Option.map_eq_some_iff.mp isDigits
    obtain ⟨scaled, before, after, rescaled, divided, rfl⟩ := bind_eq_some rest
    have total := ValueType.addBytes?_toNat found
    have bound := digits.toNat_lt
    have scale : (UInt8.ofNat (digits.toNat - p.toNat)).toNat = precision.toNat + q.toNat - p.toNat := by
      rw [UInt8.toNat_ofNat_of_lt' (Nat.lt_of_le_of_lt (Nat.sub_le _ _) bound), total]
    obtain ⟨fits, exactly⟩ := rescale_up (UInt8.le_iff_toNat_le.mpr (Nat.zero_le _)) left rescaled
    rw [scale] at exactly
    have split : (10 : ℚ) ^ (precision.toNat + q.toNat) =
        10 ^ p.toNat * 10 ^ (precision.toNat + q.toNat - p.toNat) := by
      rw [← pow_add]
      congr 1
      omega
    refine ⟨fits_compute divided, fun calm divisor => ?_, fun _ zero => ?_⟩
    · have numerator : (scaled : ℚ) = a / 10 ^ p.toNat * 10 ^ (precision.toNat + q.toNat) := by
        rw [exactly (calm_append.mp (calm_append.mp calm).2).1, split]
        push_cast
        field_simp
        rfl
      have quotient := compute_exact fits divided (calm_append.mp (calm_append.mp calm).2).2 divisor
      refine quotient.imp (fun value => ?_) fun ⟨_, least, escapes⟩ => ⟨rfl, least, ?_⟩
      · rw [value, onIntegers, exact, ← truncate_div, numerator, pow_add]
        congr 3
        field_simp
      · rw [← numerator]
        simp only [CodeType.fits, Bool.and_eq_true, decide_eq_true_eq, Bool.and_eq_false_iff, decide_eq_false_iff_not]
          at fits escapes
        have least : scaled = -2 ^ 63 := by omega
        rw [least]
        norm_num
    · unfold compute at divided
      rw [if_pos zero] at divided
      cases divided
      simp

namespace Datum

variable {length : UInt8}

/-- The number that a value stands for. -/
def rational? (d : Datum) : Option ℚ := d.number?.map fun number => number.1 / 10 ^ number.2.toNat

theorem fits_of_number? (number : x.number? = some (n, p)) : i64.fits n = true := by
  cases x with
  | integer n =>
    cases number
    exact fits_i64 (fits_int32 n)
  | numeric raw =>
    cases number
    exact fits_int64 raw
  | _ => cases number

theorem number?_numeric (fits : i64.fits n = true) : (numeric (Int64.ofInt n) p).number? = some (n, p) := by
  rw [number?, Int64.toInt_ofInt]
  exact congrArg (fun n => some (n, p)) (wrap_of_fits fits)

theorem castTo_numeric (number : x.number? = some (n, p)) : castTo (.numeric length precision) x =
    (do return numeric (Int64.ofInt (← .rescale n p precision)) precision) := by
  cases x <;> cases number <;> rfl

/-- A number keeps its value where it is given more digits. -/
theorem castTo_exact (number : x.number? = some (n, p)) (less : p ≤ precision)
    (given : castTo (.numeric length precision) x = some (d, reports)) :
    ∃ k, d.number? = some (k, precision) ∧ (p = precision → k = n ∧ reports = []) ∧
      (Calm reports → d.rational? = x.rational?) := by
  rw [castTo_numeric number] at given
  obtain ⟨k, _, _, rescaled, ⟨⟩, rfl⟩ := bind_eq_some given
  obtain ⟨fits, exactly⟩ := rescale_up less (fits_of_number? number) rescaled
  refine ⟨k, number?_numeric fits, ?_, fun calm => ?_⟩
  · rintro rfl
    rw [rescale, if_pos rfl] at rescaled
    cases rescaled
    exact ⟨rfl, rfl⟩
  · have digits : (10 : ℚ) ^ precision.toNat = 10 ^ p.toNat * 10 ^ (precision.toNat - p.toNat) := by
      rw [← pow_add, Nat.add_sub_cancel' (UInt8.le_iff_toNat_le.mp less)]
    rw [rational?, rational?, number?_numeric fits, number, exactly (calm_append.mp calm).1]
    simp only [map_some, digits]
    push_cast
    field_simp

theorem rational?_eq_zero (number : x.number? = some (n, p)) : x.rational? = some 0 ↔ n = 0 := by
  simp [rational?, number]

/-- The one quotient that wraps around and is not reported: the least number of the width by minus one, where the dividend
has as many digits as the result and the divisor have together. -/
def Escapes (ty : ValueType) (x y : Datum) : Prop :=
  ∃ u q, x.rational? = some u ∧ y.number? = some (-1, q) ∧
    u * 10 ^ (ty.precision.toNat + q.toNat) = if ty.shape = .integer then -2 ^ 31 else -2 ^ 63

/-- The registers of numbers and times. -/
def registers (shape : Shape) : CodeType := if shape = .integer ∨ shape = .date then .i32 else .i64

/-- What arithmetic on two numbers gives: the exact result where no overflow has been reported. -/
structure Settles (op : ArithOp) (ty : ValueType) (x y d : Datum) (reports : List Diagnostic) : Prop where
  held : ∃ n, d.number? = some (n, ty.precision) ∧ (registers ty.shape).fits n = true
  value : Calm reports → (op = .div → y.rational? ≠ some 0) →
    (∃ u v, x.rational? = some u ∧ y.rational? = some v ∧ d.rational? = some (op.exact ty.precision.toNat u v)) ∨
      op = .div ∧ Escapes ty x y
  zero : op = .div → y.rational? = some 0 → .divisionByZero ∈ reports

theorem Settles.of_decimals (shape : ty.shape = .numeric length precision) (number : x.number? = some (a, p))
    (number' : y.number? = some (b, q)) (aligned : op.Aligned precision p q)
    (given : arithmetic op ty.shape x y = some (d, reports)) : Settles op ty x y d reports := by
  have digits : ty.precision = precision := precision_of_parts (numericParts?_numeric shape)
  have other : ty.shape ≠ .integer := by simp [shape]
  rw [shape, arithmetic, number, number'] at given
  obtain ⟨_, _, _, ⟨⟩, rest, rfl⟩ := bind_eq_some given
  obtain ⟨_, _, _, ⟨⟩, last, rfl⟩ := bind_eq_some rest
  obtain ⟨n, _, _, computed, ⟨⟩, rfl⟩ := bind_eq_some last
  obtain ⟨fits, value, zero⟩ := op.computeDecimal_exact aligned (fits_of_number? number) computed
  rw [append_nil]
  refine ⟨⟨n, ?_, ?_⟩, fun calm divisor => ?_, fun isDiv isZero => zero isDiv ((rational?_eq_zero number').mp isZero)⟩
  · rw [digits, number?_numeric fits]
  · rwa [registers, if_neg (by simp [shape])]
  · refine (value calm fun isDiv isZero => divisor isDiv ((rational?_eq_zero number').mpr isZero)).imp ?_ ?_
    · intro exactly
      refine ⟨_, _, by rw [rational?, number]; rfl, by rw [rational?, number']; rfl, ?_⟩
      rw [rational?, number?_numeric fits, digits]
      exact congrArg some exactly
    · rintro ⟨isDiv, rfl, least⟩
      refine ⟨isDiv, _, q, by rw [rational?, number]; rfl, number', ?_⟩
      rw [digits, if_neg other]
      exact least

theorem Settles.of_integers (shape : ty.shape = .integer) {m k : Int32}
    (given : arithmetic op ty.shape (integer m) (integer k) = some (d, reports)) :
    Settles op ty (integer m) (integer k) d reports ∧ (op ≠ .div →
      d = integer (Int32.ofInt (op.onIntegers m.toInt k.toInt)) ∧
      reports = if CodeType.i32.fits (op.onIntegers m.toInt k.toInt) then [] else [.overflow op .i32]) := by
  have digits : ty.precision = 0 := ValueType.precision_of_parts (ValueType.numericParts?_integer shape)
  have number (n : Int32) : (integer n).rational? = some (n.toInt : ℚ) := by simp [rational?, number?]
  rw [shape] at given
  obtain ⟨n, before, _, computed, ⟨⟩, rfl⟩ := bind_eq_some given
  rw [append_nil]
  have fits := fits_compute computed
  have kept : (Int32.ofInt n).toInt = n := Int32.toInt_ofInt.trans (CodeType.wrap_of_fits fits)
  refine ⟨⟨⟨n, ?_, ?_⟩, fun calm divisor => ?_, fun isDiv isZero => ?_⟩, fun other => ?_⟩
  · rw [digits, number?, kept]
  · rwa [registers, if_pos (.inl shape)]
  · have nonzero (isDiv : op = .div) : k.toInt ≠ 0 := fun isZero => divisor isDiv (by rw [number, isZero, Int.cast_zero])
    refine (compute_exact (CodeType.fits_int32 m) computed calm nonzero).imp ?_ ?_
    · intro exactly
      refine ⟨_, _, number m, number k, ?_⟩
      rw [number, kept, exactly, digits]
      cases op <;> simp [onIntegers, exact, truncate_div]
    · rintro ⟨isDiv, least, escapes⟩
      refine ⟨isDiv, _, 0, number m, by rw [number?, least], ?_⟩
      have fits := CodeType.fits_int32 m
      simp only [CodeType.fits, Bool.and_eq_true, decide_eq_true_eq, Bool.and_eq_false_iff, decide_eq_false_iff_not]
        at fits escapes
      have low : m.toInt = -2 ^ 31 := by omega
      rw [digits, if_pos shape, low]
      norm_num
  · subst isDiv
    rw [number, Option.some.injEq, Int.cast_eq_zero] at isZero
    unfold compute at computed
    rw [if_pos isZero] at computed
    cases computed
    simp
  · have wraps (j : ℤ) : Int32.ofInt (CodeType.i32.wrap j) = Int32.ofInt j := by
      apply Int32.toInt_inj.mp
      rw [Int32.toInt_ofInt, Int32.toInt_ofInt]
      exact Int.bmod_bmod
    cases op with
    | div => exact absurd rfl other
    | add | sub | mul =>
      cases computed
      exact ⟨congrArg integer (wraps _), rfl⟩

end Datum

theorem Datum.HasShape.castTo_self {shape : Shape} (is : x.HasShape shape) :
    x.castTo shape = some (x, []) := by
  cases is with
  | numeric raw length precision =>
    rw [castTo_numeric rfl, rescale, if_pos rfl, pure_bind, Int64.ofInt_toInt]
    rfl
  | _ => rfl

theorem Datum.HasShape.parts {p : UInt8} (is : x.HasShape ty.shape)
    (number : x.number? = some (n, p)) : ∃ length, ty.numericParts? = some (length, p) := by
  generalize same : ty.shape = shape at is
  cases is with
  | integer =>
    cases number
    exact ⟨10, numericParts?_integer same⟩
  | numeric _ length =>
    cases number
    exact ⟨length, numericParts?_numeric same⟩
  | _ => cases number

theorem Datum.HasShape.known (is : x.HasShape ty.shape) : ty.isUnknown ≠ true := by
  intro unknown
  rw [isUnknown_iff.mp unknown] at is
  cases is

/-- Beside a decimal an operand becomes one: of the digits of a sum, or of its own. -/
theorem ValueType.operandType_numeric {lhs : ValueType} {length precision l p : UInt8}
    (shape : ty.shape = .numeric length precision) (parts : lhs.numericParts? = some (l, p)) :
    ∃ l', (operandType op ty lhs).shape = .numeric l' (if op = .add ∨ op = .sub then precision else p) := by
  have isNumeric : ty.isNumeric = true := by rw [isNumeric, shape]
  cases op with
  | add | sub => exact ⟨length, shape⟩
  | mul | div =>
    rw [operandType, isNumeric]
    rcases parts_cases parts with ⟨left, same⟩ | left
    · cases same
      exact ⟨10, by simp [left, numeric]⟩
    · exact ⟨l, by simp [left]⟩

namespace Scalar


theorem evaluate_castTo {target : ValueType} {x' : Datum} (given : e.evaluate row = some (x, r1))
    (is : x.HasShape e.ty.shape) (cast : (castTo target e).evaluate row = some (x', reports)) :
    ∃ casts, reports = r1 ++ casts ∧ x.castTo target.shape = some (x', casts) := by
  unfold castTo at cast
  split at cast
  next kept =>
    cases given.symm.trans cast
    refine ⟨[], (append_nil _).symm, ?_⟩
    rcases Bool.or_eq_true_iff.mp kept with unknown | same
    · exact absurd unknown is.known
    · rw [← of_decide_eq_true same]
      exact is.castTo_self
  · obtain ⟨_, _, casts, first, casted, rfl⟩ := bind_eq_some cast
    cases given.symm.trans first
    refine ⟨casts, rfl, ?_⟩
    have present : x.isNull = false := by
      generalize e.ty.shape = shape at is
      cases is <;> rfl
    rw [unlessNull, present] at casted
    exact casted

/-- Arithmetic as the checked constructor builds it, with the casts of its operands. -/
theorem evaluate_makeArithmetic (made : makeArithmetic op lhs rhs = .ok e) (left : lhs.evaluate row = some (x, r1))
    (right : rhs.evaluate row = some (y, r2)) (xIs : x.HasShape lhs.ty.shape) (yIs : y.HasShape rhs.ty.shape)
    (number : x.number? = some (a, p)) (number' : y.number? = some (b, q))
    (given : e.evaluate row = some (d, reports)) : ∃ casts casts' own,
      reports = r1 ++ casts ++ (r2 ++ casts' ++ own) ∧ Datum.Settles op e.ty x y d (casts ++ casts' ++ own) ∧
      (lhs.ty.shape = .integer → rhs.ty.shape = .integer → op ≠ .div → casts = [] ∧ casts' = [] ∧
        d = .integer (Int32.ofInt (op.onIntegers a b)) ∧
        own = if i32.fits (op.onIntegers a b) then [] else [.overflow op .i32]) := by
  obtain ⟨ty, inferred, rfl⟩ := makeArithmetic_ok made
  obtain ⟨_, _, _, left', rest, rfl⟩ := bind_eq_some given
  obtain ⟨y', _, own, right', settled, rfl⟩ := bind_eq_some rest
  obtain ⟨casts, rfl, xCast⟩ := evaluate_castTo left xIs left'
  obtain ⟨casts', rfl, yCast⟩ := evaluate_castTo right yIs right'
  obtain ⟨l, parts⟩ := xIs.parts number
  obtain ⟨_, parts'⟩ := yIs.parts number'
  refine ⟨casts, casts', own, rfl, ?_⟩
  rcases (arithmetic_infers (not_or.mpr ⟨xIs.known, yIs.known⟩) inferred).shapes with
    ⟨leftInt, rightInt, shape⟩ | ⟨mixed, length, precision, _, _, _, _, shape, found, found', aligned, product⟩
  · rw [operandType_integer shape leftInt] at xCast
    rw [operandType_integer shape rightInt] at yCast
    rw [leftInt] at xIs
    rw [rightInt] at yIs
    cases xIs
    cases yIs
    cases xCast
    cases yCast
    cases number
    cases number'
    obtain ⟨settles, linear⟩ := Datum.Settles.of_integers shape settled
    exact ⟨settles, fun _ _ other => ⟨rfl, rfl, linear other⟩⟩
  · cases parts.symm.trans found
    cases parts'.symm.trans found'
    obtain ⟨k, xShape⟩ := @operandType_numeric op ty lhs.ty _ _ _ _ shape parts
    obtain ⟨_, yShape⟩ := @operandType_numeric op ty rhs.ty _ _ _ _ shape parts'
    rw [xShape] at xCast
    rw [yShape] at yCast
    have wider {p : UInt8} (less : op ≠ .mul → p ≤ precision) :
        p ≤ if op = .add ∨ op = .sub then precision else p := by
      split
      next sum =>
        refine less ?_
        rcases sum with rfl | rfl <;> decide
      · exact UInt8.le_refl p
    obtain ⟨n, xNumber, _, xValue⟩ := castTo_exact number (wider fun other => (aligned other).1) xCast
    obtain ⟨m, yNumber, ySame, yValue⟩ := castTo_exact number' (wider fun other => (aligned other).2) yCast
    have present {d : Datum} {n : ℤ} {p : UInt8} (number : d.number? = some (n, p)) : d.isNull = false := by
      cases d <;> first | rfl | cases number
    rw [unlessNull₂, present xNumber, present yNumber] at settled
    have settles := Datum.Settles.of_decimals shape xNumber yNumber (by
      cases op with
      | add | sub => exact ⟨rfl, rfl⟩
      | mul => exact product rfl
      | div => exact (aligned (by decide)).1) settled
    have divisor (isDiv : op = .div) : y'.number? = y.number? := by
      subst isDiv
      rw [yNumber, number', (ySame rfl).1]
      rfl
    have divisor' (isDiv : op = .div) : y'.rational? = y.rational? := by
      rw [rational?, divisor isDiv, rational?]
    refine ⟨⟨settles.held, fun calm nonzero => ?_, fun isDiv zero => ?_⟩,
      fun leftInt rightInt => absurd ⟨leftInt, rightInt⟩ mixed⟩
    · obtain ⟨calmCasts, calmOwn⟩ := calm_append.mp calm
      obtain ⟨calmLeft, calmRight⟩ := calm_append.mp calmCasts
      have value := settles.value calmOwn fun isDiv => divisor' isDiv ▸ nonzero isDiv
      rw [xValue calmLeft, yValue calmRight] at value
      refine value.imp_right ?_
      rintro ⟨isDiv, u, q, dividend, least⟩
      rw [xValue calmLeft] at dividend
      exact ⟨isDiv, u, q, dividend, divisor isDiv ▸ least⟩
    · exact mem_append_right _ (settles.zero isDiv ((divisor' isDiv).trans zero))

/-- Arithmetic as the checked constructor builds it, on values that are not NULL. Where neither overflow nor a division by
zero is reported, the number that the registers hold is the exact one, and a quotient is cut off after the digits of its
type; excluded is only the quotient of the least number of a width by minus one. For sums, differences and products of
integers overflow is reported just where the exact result is out of range, and what is held is that result modulo
`2 ^ 32`. -/
theorem arithmetic_is_exact {host : Host} {s : Point} {held : HeldRow} {h : Held} {b' : Builder}
    (made : makeArithmetic op lhs rhs = .ok e) (here : s.At host) (is : HeldRow.Is s held row)
    (emitted : e.emit held s.builder = .ok h b') (within : b'.Within host.function host.program)
    (left : lhs.evaluate row = some (x, r1)) (right : rhs.evaluate row = some (y, r2))
    (xIs : x.HasShape lhs.ty.shape) (yIs : y.HasShape rhs.ty.shape)
    (number : x.number? = some (a, p)) (number' : y.number? = some (b, q)) :
    ∃ d casts casts' own s', e.evaluate row = some (d, r1 ++ casts ++ (r2 ++ casts' ++ own)) ∧ host.Steps s s' ∧
      s'.builder = b' ∧ h.Is s' d ∧ s'.machine = s.machine.reportAll (r1 ++ casts ++ (r2 ++ casts' ++ own)) ∧
      (casts = [] → casts' = [] → own = [] →
        d.rational? = some (op.exact e.ty.precision.toNat (a / 10 ^ p.toNat) (b / 10 ^ q.toNat)) ∨
        op = .div ∧ b = -1 ∧ (a : ℚ) / 10 ^ p.toNat * 10 ^ (e.ty.precision.toNat + q.toNat) =
          if e.ty.shape = .integer then -2 ^ 31 else -2 ^ 63) ∧
      (lhs.ty.shape = .integer → rhs.ty.shape = .integer → op ≠ .div → casts = [] ∧ casts' = [] ∧
        d = .integer (Int32.ofInt (op.onIntegers a b)) ∧
        own = if CodeType.i32.fits (op.onIntegers a b) then [] else [.overflow op .i32]) := by
  obtain ⟨s', builder, steps, _, _, d, ⟨reports, gives, machine⟩, hIs⟩ := e.attains_emit is h b' emitted within here
  obtain ⟨casts, casts', own, rfl, settles, integers⟩ :=
    evaluate_makeArithmetic made left right xIs yIs number number' gives
  refine ⟨d, casts, casts', own, s', gives, steps, builder, hIs, machine, ?_, integers⟩
  rintro rfl rfl rfl
  have value := settles.value rfl fun isDiv zero => nomatch settles.zero isDiv zero
  refine value.imp (fun ⟨u, v, first, second, exactly⟩ => ?_) fun ⟨isDiv, u, _, first, second, least⟩ => ⟨isDiv, ?_⟩
  · rw [Datum.rational?, number] at first
    rw [Datum.rational?, number'] at second
    cases first
    cases second
    exact exactly
  · rw [Datum.rational?, number] at first
    cases first
    cases number'.symm.trans second
    exact ⟨rfl, least⟩

namespace Example

def oneAndHalf : Scalar := .literal (.numeric 15 1) (.numeric 2 1)

end Example

open Example in
theorem arithmetic_is_exact_product : ∃ (e : Scalar) (host : Host) (s s' : Point) (h : Held) (b' : Builder) (d : Datum),
    makeArithmetic .mul (.column first) oneAndHalf = .ok e ∧ s.At host ∧ HeldRow.Is s Example.held Example.row ∧
      e.emit Example.held s.builder = .ok h b' ∧ b'.Within host.function host.program ∧ host.Steps s s' ∧ h.Is s' d ∧
      s'.machine = s.machine ∧ d.rational? = some (ArithOp.mul.exact 1 (2147483647 / 10 ^ 0) (15 / 10 ^ 1)) := by
  let e : Scalar := .arithmetic .mul (.cast (.column first) (.numeric 10 0)) oneAndHalf (.numeric 12 1)
  have made : makeArithmetic .mul (.column first) oneAndHalf = .ok e := rfl
  have evaluated : e.evaluate Example.row = some (.numeric 32212254705 1, []) := rfl
  obtain ⟨host, s, h, b, here, is, emitted, within⟩ := exists_run e (by decide +kernel)
  obtain ⟨d, casts, casts', own, s', gives, steps, _, hIs, machine, value, _⟩ :=
    arithmetic_is_exact made here is emitted within rfl rfl (.integer 2147483647) (.numeric 15 2 1) rfl rfl
  have silent := congrArg Prod.snd (Option.some.inj (evaluated.symm.trans gives))
  simp only [nil_append, nil_eq, append_eq_nil_iff] at silent
  obtain ⟨rfl, rfl, rfl⟩ := silent
  refine ⟨e, host, s, s', h, b, d, made, here, is, emitted, within, steps, hIs, ?_, ?_⟩
  · rw [machine]
    exact Machine.reportAll_nil _
  · exact (value rfl rfl rfl).resolve_right nofun

end Scalar

end QueryEngine
