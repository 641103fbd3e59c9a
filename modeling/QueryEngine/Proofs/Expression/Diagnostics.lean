import QueryEngine.Proofs.Emission.Values
import QueryEngine.Proofs.Execution.Branches
import QueryEngine.Proofs.Value.Texts

set_option synthInstance.maxSize 512

namespace QueryEngine

/-- What arithmetic reports. -/
inductive Diagnostic where
  | overflow (op : ArithOp) (ty : CodeType)
  | divisionByZero
deriving Repr, DecidableEq

namespace Diagnostic

def text : Diagnostic → String
  | overflow op ty => "overflow in " ++ op.verb ++ " of " ++ ty.text
  | divisionByZero => "division by zero"

def isOverflow : Diagnostic → Bool
  | overflow _ _ => true
  | divisionByZero => false

def routine : Diagnostic → Routine
  | overflow _ _ => .reportOverflow
  | divisionByZero => .reportDivisionByZero

end Diagnostic

/-- The machine after diagnostics have been reported. -/
def Machine.reportAll (m : Machine) (reports : List Diagnostic) : Machine :=
  { m with outcome := { m.outcome with
      diagnostics := m.outcome.diagnostics ++ (reports.map Diagnostic.text).toArray
      overflow := m.outcome.overflow || reports.any Diagnostic.isOverflow } }

namespace Machine

@[simp] theorem reportAll_nil (m : Machine) : m.reportAll [] = m := by simp [reportAll]

theorem reportAll_append (m : Machine) (first second : List Diagnostic) :
    m.reportAll (first ++ second) = (m.reportAll first).reportAll second := by
  simp [reportAll, Bool.or_assoc]

end Machine

/-- A diagnostic is reported by handing its text to its routine. -/
theorem Diagnostic.run_routine (d : Diagnostic) (text : m.readText address len.toNat = d.text) :
    d.routine.run [address, len] m = .ok 0 (m.reportAll [d]) := by
  have pushed (m' : Machine) : Action.report d.text m' = .ok 0 { m' with
      outcome.diagnostics := m'.outcome.diagnostics ++ ([d].map Diagnostic.text).toArray } := by
    rfl
  cases d with
  | overflow op ty =>
    calc Action.reportOverflow [address, len] m
      _ = Action.report (m.readText address len.toNat) { m with outcome.overflow := true } := rfl
      _ = .ok 0 (m.reportAll [overflow op ty]) := by rw [text, pushed]; simp [Machine.reportAll, isOverflow]
  | divisionByZero =>
    calc Action.reportDivisionByZero [address, len] m
      _ = Action.report (m.readText address len.toNat) m := rfl
      _ = .ok 0 (m.reportAll [divisionByZero]) := by rw [text, pushed]; simp [Machine.reportAll, isOverflow]

/-- A result with the diagnostics on the way to it, or none where the operation does not apply. -/
def Evaluation (α : Type) : Type := Option (α × List Diagnostic)

namespace Evaluation

variable {α : Type}

instance : Monad Evaluation where
  pure x := some (x, [])
  bind eval next := Option.bind eval fun (x, first) => Option.map (fun (y, second) => (y, first ++ second)) (next x)

theorem pure_bind (x : α) (next : α → Evaluation β) : (pure x >>= next) = next x := by
  exact congrFun Option.map_id (next x)

/-- The value alone, or none. -/
def ofOption (x? : Option α) : Evaluation α := x?.map fun x => (x, [])

/-- A result on the way to which `reports` have been made. -/
def reporting (x : α) (reports : List Diagnostic) : Evaluation α := some (x, reports)

/-- The evaluation gives `x`, and its diagnostics are what `m'` has beyond `m`. -/
def Reaches (eval : Evaluation α) (m : Machine) (x : α) (m' : Machine) : Prop :=
  ∃ reports, eval = some (x, reports) ∧ m' = m.reportAll reports

theorem Reaches.pure (x : α) (same : m' = m) : (Pure.pure x : Evaluation α).Reaches m x m' :=
  ⟨[], rfl, by rw [same, Machine.reportAll_nil]⟩

theorem Reaches.bind {next : α → Evaluation β} (first : eval.Reaches m x m') (second : (next x).Reaches m' y m'') :
    (eval >>= next).Reaches m y m'' := by
  obtain ⟨reports, gives, rfl⟩ := first
  obtain ⟨more, gives', rfl⟩ := second
  refine ⟨reports ++ more, ?_, (m.reportAll_append reports more).symm⟩
  subst gives
  exact congrArg (Option.map _) gives'

theorem Reaches.ofOption (gives : x? = some x) (same : m' = m) : (Evaluation.ofOption x?).Reaches m x m' := by
  rw [gives]
  exact .pure x same

end Evaluation

/-- Arithmetic on the numbers of a register type. A result that does not fit wraps around and is reported, and so is a
zero divisor, for which the quotient is zero. A quotient that does not fit wraps around silently. -/
def ArithOp.compute (op : ArithOp) (ty : CodeType) (a b : Int) : Evaluation Int :=
  match op with
  | .add => bounded (a + b)
  | .sub => bounded (a - b)
  | .mul => bounded (a * b)
  | .div => if b = 0 then .reporting 0 [.divisionByZero] else pure (ty.wrap (a.tdiv b))
where
  bounded (n : Int) : Evaluation Int := .reporting (ty.wrap n) (if ty.fits n then [] else [.overflow op ty])

/-- Another number of fractional digits. More digits may overflow, fewer are cut off. -/
def Evaluation.rescale (raw : Int) (source target : UInt8) : Evaluation Int :=
  if target = source then pure raw
  else if source < target then do
    ArithOp.mul.compute .i64 raw (← ofOption (powerOfTen? (target - source)))
  else do
    return raw.tdiv (← ofOption (powerOfTen? (source - target)))

/-- Arithmetic on decimals with `p` and `q` fractional digits, with a result of `precision` of them. -/
def ArithOp.computeDecimal (op : ArithOp) (precision : UInt8) (a : Int) (p : UInt8) (b : Int) (q : UInt8) :
    Evaluation Int :=
  match op with
  | .add | .sub => do
    let a ← .rescale a p precision
    let b ← .rescale b q precision
    op.compute .i64 a b
  | .mul => do
    let product ← op.compute .i64 a b
    .rescale product (← .ofOption (ValueType.addBytes? p q)) precision
  | .div => do
    let scale := (← .ofOption (ValueType.addBytes? precision q)).toNat - p.toNat
    op.compute .i64 (← .rescale a 0 (UInt8.ofNat scale)) b

theorem powerOfTen?_bounds (found : powerOfTen? exponent = some factor) : 0 < factor ∧ factor ≤ 10 ^ 18 := by
  unfold powerOfTen? at found
  split at found
  next small =>
    cases found
    have bound : 10 ^ exponent.toNat ≤ 10 ^ 18 := Nat.pow_le_pow_right (by decide) (UInt8.le_iff_toNat_le.mp small)
    have most : (10 : Int) ^ exponent.toNat ≤ 10 ^ 18 := by exact_mod_cast bound
    exact ⟨Int.pow_pos (by decide), most⟩
  · cases found

theorem CodeType.fits_tdiv {ty : CodeType} {n k : Int} (fits : ty.fits n = true) (positive : 0 < k) :
    ty.fits (n.tdiv k) = true := by
  have smaller : (n.tdiv k).natAbs ≤ n.natAbs := by
    rw [Int.natAbs_tdiv]
    exact Nat.div_le_self _ _
  have sign : 0 ≤ n → 0 ≤ n.tdiv k := fun nonneg => Int.tdiv_nonneg nonneg (Int.le_of_lt positive)
  have sign' : n ≤ 0 → n.tdiv k ≤ 0 := fun nonpos => by
    have opposite := Int.tdiv_nonneg (Int.neg_nonneg_of_nonpos nonpos) (Int.le_of_lt positive)
    rw [Int.neg_tdiv] at opposite
    omega
  cases ty <;> simp only [CodeType.fits, Bool.and_eq_true, decide_eq_true_eq] at fits ⊢ <;> omega

namespace Host.Attains

variable {host : Host} {s : Point}

theorem reportIf {cond : Reg} {flag : Bool} (d : Diagnostic) (bit : s.Bit cond flag) :
    host.Attains (Emit.reportIf cond d.routine d.text) s fun _ s' =>
      s'.machine = s.machine.reportAll (if flag then [d] else []) := by
  refine ifThen (fun m => m = s.machine.reportAll (if flag then [d] else [])) bit (fun set s' _ machine => ?_)
    fun unset => by simp [unset]
  refine (constBytes (textBytes d.text)).bind fun regs s1 before1 ⟨machine1, address, ptr, len, lies⟩ => ?_
  have readsAll : s1.ReadsAll [regs.1, regs.2] [(.ptr, address), (.i64, Word.ofInt (textBytes d.text).length)] :=
    .cons ptr (.cons len.reads .nil)
  have count : (Word.ofInt ((textBytes d.text).length : Int)).toNat = (textBytes d.text).length := by
    exact UInt64.toNat_ofNat_of_lt (Nat.lt_trans lies.length (by decide))
  have text : s1.machine.readText address (Word.ofInt ((textBytes d.text).length : Int)).toNat = d.text := by
    rw [count, Machine.readText, lies.readBytes, bytesText_textBytes]
  refine (callEffect readsAll (d.run_routine text) rfl ⟨.refl _, .refl _⟩).mono fun _ _ _ machine' => ?_
  rw [machine', machine1, machine, set, if_pos rfl]

theorem checkedBy (op : OverflowOp) {arith : ArithOp} {binaryOp : BinaryOp} (left : s.Number a ty n)
    (right : s.Number b ty k) (same : binaryOp = match op with | .add => BinaryOp.add | .sub => .sub | .mul => .mul) :
    host.Attains (Emit.checkedBy arith binaryOp op a b) s fun r s' => s'.Number r ty (ty.wrap (op.exact n k)) ∧
      s'.machine = s.machine.reportAll (if ty.fits (op.exact n k) then [] else [.overflow arith ty]) := by
  refine (binary binaryOp left.reads right.reads).bind fun r s1 before1 ⟨machine1, result⟩ => ?_
  rw [BinaryOp.normalize_apply_exact op n k same] at result
  refine (overflows op (left.mono before1) (right.mono before1) rfl).bind fun bit s2 before2 ⟨machine2, flag⟩ => ?_
  refine (typeOf ((left.mono before1).mono before2).reads).bind fun found s3 before3 ⟨point3, found_eq⟩ => ?_
  rw [point3, found_eq]
  refine (reportIf (.overflow arith ty) flag).bind fun _ s4 before4 machine4 => ?_
  refine .pure ⟨⟨(result.mono before2).mono before4, CodeType.fits_wrap ty _⟩, ?_⟩
  rw [machine4, machine2, machine1]
  cases ty.fits (op.exact n k) <;> rfl

/-- A divisor of zero is replaced by one, so that the division itself never fails. -/
theorem divide (left : s.Number a ty n) (right : s.Number b ty k) : host.Attains (Emit.divide a b) s fun r s' =>
      ∃ q, (ArithOp.div.compute ty n k).Reaches s.machine q s'.machine ∧ s'.Number r ty q := by
  refine (typeOf right.reads).bind fun found s1 before1 ⟨point1, found_eq⟩ => ?_
  rw [point1, found_eq]
  have fitsZero : ty.fits 0 = true := CodeType.fits_ofBool false
  have fitsOne : ty.fits 1 = true := CodeType.fits_ofBool true
  refine (constNumber fitsZero).bind fun zero s2 before2 ⟨machine2, zeroIs⟩ => ?_
  refine (constNumber fitsOne).bind fun one s3 before3 ⟨machine3, oneIs⟩ => ?_
  have before := before2.trans before3
  refine (compareNumbers rfl (right.mono before) (zeroIs.mono before3)).bind fun bit s4 before4 ⟨machine4, isZero⟩ => ?_
  refine (reportIf .divisionByZero isZero).bind fun _ s5 before5 machine5 => ?_
  have before := before3.trans (before4.trans before5)
  refine (select (isZero.mono before5) (oneIs.mono (before4.trans before5)).reads
    (right.mono (before2.trans before)).reads).bind fun divisor s6 before6 ⟨machine6, divisorIs⟩ => ?_
  refine (binary .sdiv (left.mono (before2.trans (before.trans before6))).reads divisorIs).bind
    fun quotient s7 before7 ⟨machine7, quotientIs⟩ => ?_
  refine (select (isZero.mono (before5.trans (before6.trans before7)))
    (zeroIs.mono (before.trans (before6.trans before7))).reads quotientIs).mono fun r s8 before8 ⟨machine8, result⟩ => ?_
  have machine : s8.machine = s.machine.reportAll (if k = 0 then [.divisionByZero] else []) := by
    rw [machine8, machine7, machine6, machine5, machine4, machine3, machine2]
    simp [Predicate.holds]
  by_cases isZero : k = 0
  · refine ⟨0, ⟨[.divisionByZero], if_pos isZero, by rw [machine, if_pos isZero]⟩, ?_, fitsZero⟩
    simpa [Predicate.holds, isZero] using result
  · refine ⟨ty.wrap (n.tdiv k), ⟨[], if_neg isZero, by rw [machine, if_neg isZero]⟩, ?_, ty.fits_wrap _⟩
    simpa [Predicate.holds, isZero, BinaryOp.normalize_apply_sdiv left.fits right.fits] using result

theorem checked (op : ArithOp) (left : s.Number a ty n) (right : s.Number b ty k) :
    host.Attains (Emit.checked op a b) s fun r s' =>
      ∃ result, (op.compute ty n k).Reaches s.machine result s'.machine ∧ s'.Number r ty result := by
  cases op with
  | add => exact (checkedBy .add left right rfl).mono fun _ _ _ ⟨number, machine⟩ => ⟨_, ⟨_, rfl, machine⟩, number⟩
  | sub => exact (checkedBy .sub left right rfl).mono fun _ _ _ ⟨number, machine⟩ => ⟨_, ⟨_, rfl, machine⟩, number⟩
  | mul => exact (checkedBy .mul left right rfl).mono fun _ _ _ ⟨number, machine⟩ => ⟨_, ⟨_, rfl, machine⟩, number⟩
  | div => exact divide left right

theorem rescale (source target : UInt8) (raw : s.Number a .i64 n) :
    host.Attains (Emit.rescale a source target) s fun r s' =>
      ∃ result, (Evaluation.rescale n source target).Reaches s.machine result s'.machine ∧ s'.Number r .i64 result := by
  unfold Emit.rescale Evaluation.rescale
  split
  · exact .pure ⟨n, .pure n rfl, raw⟩
  · have factorFits {exponent : UInt8} {factor : Int} (found : powerOfTen? exponent = some factor) :
        CodeType.i64.fits factor = true := by
      obtain ⟨positive, small⟩ := powerOfTen?_bounds found
      simp only [CodeType.fits, Bool.and_eq_true, decide_eq_true_eq]
      omega
    split
    · refine orTrap.bind ?_
      rintro factor s1 before1 ⟨point1, found⟩
      rw [point1]
      refine (constNumber (factorFits found)).bind ?_
      rintro r s2 before2 ⟨machine2, factorIs⟩
      refine (checked .mul (raw.mono before2) factorIs).mono ?_
      rintro _ _ _ ⟨result, reaches, number⟩
      exact ⟨result, .bind (.ofOption found machine2) reaches, number⟩
    · refine orTrap.bind ?_
      rintro factor s1 before1 ⟨point1, found⟩
      rw [point1]
      refine (constNumber (factorFits found)).bind ?_
      rintro r s2 before2 ⟨machine2, factorIs⟩
      refine (binary .sdiv (raw.mono before2).reads factorIs.reads).mono ?_
      rintro _ _ _ ⟨machine3, quotient⟩
      have fits := CodeType.fits_tdiv raw.fits (powerOfTen?_bounds found).1
      rw [BinaryOp.normalize_apply_sdiv raw.fits factorIs.fits, CodeType.wrap_of_fits fits] at quotient
      exact ⟨n.tdiv factor, .bind (.ofOption found machine2) (.pure _ machine3), quotient, fits⟩

theorem numericArithmetic (op : ArithOp) (precision p q : UInt8) (left : s.Number a .i64 n)
    (right : s.Number b .i64 k) :
    host.Attains (Present.numericArithmetic op precision a p b q) s fun r s' => ∃ result,
      (op.computeDecimal precision n p k q).Reaches s.machine result s'.machine ∧ s'.Number r .i64 result := by
  have aligned (op : ArithOp) : host.Attains (do
      let a ← Emit.rescale a p precision
      let b ← Emit.rescale b q precision
      Emit.checked op a b) s fun r s' => ∃ result, (do
        let a ← Evaluation.rescale n p precision
        let b ← Evaluation.rescale k q precision
        op.compute .i64 a b : Evaluation Int).Reaches s.machine result s'.machine ∧ s'.Number r .i64 result := by
    refine (rescale p precision left).bind fun x s1 before1 ⟨n', reaches1, leftIs⟩ => ?_
    refine (rescale q precision (right.mono before1)).bind fun y s2 before2 ⟨_, reaches2, rightIs⟩ => ?_
    refine (checked op (leftIs.mono before2) rightIs).mono fun _ _ _ ⟨result, reaches3, number⟩ => ?_
    exact ⟨result, .bind reaches1 (.bind reaches2 reaches3), number⟩
  cases op with
  | add => exact aligned .add
  | sub => exact aligned .sub
  | mul =>
    refine (checked .mul left right).bind fun product s1 before1 ⟨n', reaches1, productIs⟩ => ?_
    refine orTrap.bind fun digits s2 before2 ⟨point2, found⟩ => ?_
    rw [point2]
    refine (rescale digits precision productIs).mono fun _ _ _ ⟨result, reaches3, number⟩ => ?_
    exact ⟨result, .bind reaches1 (.bind (.ofOption found rfl) reaches3), number⟩
  | div =>
    refine orTrap.bind fun digits s1 before1 ⟨point1, found⟩ => ?_
    rw [point1]
    refine (rescale 0 _ left).bind fun numerator s2 before2 ⟨n', reaches2, numeratorIs⟩ => ?_
    refine (divide numeratorIs (right.mono before2)).mono fun _ _ _ ⟨result, reaches3, number⟩ => ?_
    exact ⟨result, .bind (.ofOption found rfl) (.bind reaches2 reaches3), number⟩

end Host.Attains

end QueryEngine
