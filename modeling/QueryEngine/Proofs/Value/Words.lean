import Mathlib.Algebra.Ring.Int.Defs
import Mathlib.Algebra.Ring.Nat
import QueryEngine.Machine.Run

namespace QueryEngine

open Word CodeType

namespace Word

theorem signed_ofInt (n : Int) : (ofInt n).signed = n.bmod (2 ^ 64) := by
  simp [signed, ofInt, Int64.toInt_ofInt]

@[simp] theorem ofInt_signed (w : Word) : ofInt w.signed = w := by
  simp [signed, ofInt]

theorem signed_inj {w w' : Word} : w.signed = w'.signed ↔ w = w' := by
  refine ⟨fun same => ?_, congrArg signed⟩
  rw [← ofInt_signed w, same, ofInt_signed]

theorem ofInt_add (a b : Int) : ofInt (a + b) = ofInt a + ofInt b := by
  simp [ofInt, Int64.ofInt_add]

theorem ofInt_sub (a b : Int) : ofInt (a - b) = ofInt a - ofInt b := by
  simp [ofInt, Int64.ofInt_sub]

theorem ofInt_mul (a b : Int) : ofInt (a * b) = ofInt a * ofInt b := by
  simp [ofInt, Int64.ofInt_mul]

theorem ofBool_eq (b : Bool) : ofBool b = ofInt (if b then 1 else 0) := by
  cases b <;> rfl

theorem ofInt_natCast (n : Nat) : ofInt n = UInt64.ofNat n := UInt64.toBitVec_inj.mp (BitVec.ofInt_natCast 64 n)

/-- The low bits do not depend on the sign. -/
theorem signed_emod (w : Word) {n : Int} (divides : n ∣ (2 ^ 64 : Nat)) : w.signed % n = w.toNat % n := by
  change w.toBitVec.toInt % n = _
  rw [BitVec.toInt_eq_toNat_bmod, ← Int.emod_emod_of_dvd _ divides, Int.bmod_emod, Int.emod_emod_of_dvd _ divides]
  rfl

theorem signed_and_one (w : Word) : (w &&& 1).signed = w.signed % 2 := by
  have low : (w &&& 1).toNat = w.toNat % 2 := by simp [Nat.and_one_is_mod]
  have nonneg : (w &&& 1).signed = (w &&& 1).toNat := by
    change (w &&& 1).toBitVec.toInt = _
    rw [BitVec.toInt_eq_toNat_of_lt (by change 2 * (w &&& 1).toNat < _; omega)]
    rfl
  rw [nonneg, low, signed_emod w (by decide)]
  rfl

theorem toUInt8_toInt8 (w : Word) : w.toUInt8.toInt8.toInt = w.signed.bmod (2 ^ 8) := by
  have same : w.toUInt8.toInt8 = w.toInt64.toInt8 := by
    apply Int8.toBitVec_inj.mp
    simp [BitVec.signExtend_eq_setWidth_of_le]
  rw [same, Int64.toInt_toInt8, signed]

theorem toUInt32_toInt32 (w : Word) : w.toUInt32.toInt32.toInt = w.signed.bmod (2 ^ 32) := by
  have same : w.toUInt32.toInt32 = w.toInt64.toInt32 := by
    apply Int32.toBitVec_inj.mp
    simp [BitVec.signExtend_eq_setWidth_of_le]
  rw [same, Int64.toInt_toInt32, signed]

end Word

variable {ty : CodeType} {n : Int}

namespace CodeType

/-- The number that remains of `n` in a register of the type. -/
def wrap (ty : CodeType) (n : Int) : Int :=
  match ty with
  | i1 => n % 2
  | i8 => n.bmod (2 ^ 8)
  | i32 => n.bmod (2 ^ 32)
  | i64 | ptr => n.bmod (2 ^ 64)

theorem signed_eq_wrap (ty : CodeType) (w : Word) : ty.signed w = ty.wrap w.signed := by
  cases ty with
  | i1 => exact signed_and_one w
  | i8 => exact (Int8.toInt_toInt64 _).trans (toUInt8_toInt8 w)
  | i32 => exact (Int32.toInt_toInt64 _).trans (toUInt32_toInt32 w)
  | i64 | ptr => exact (Int64.toInt_bmod _).symm

theorem fits_wrap (ty : CodeType) (n : Int) : ty.fits (ty.wrap n) = true := by
  have low8 := @Int.le_bmod n (2 ^ 8) (by decide)
  have high8 := @Int.bmod_lt n (2 ^ 8) (by decide)
  have low32 := @Int.le_bmod n (2 ^ 32) (by decide)
  have high32 := @Int.bmod_lt n (2 ^ 32) (by decide)
  have low64 := @Int.le_bmod n (2 ^ 64) (by decide)
  have high64 := @Int.bmod_lt n (2 ^ 64) (by decide)
  cases ty <;> rw [wrap, fits, Bool.and_eq_true, decide_eq_true_eq, decide_eq_true_eq] <;> omega

theorem wrap_of_fits (fits : ty.fits n = true) : ty.wrap n = n := by
  cases ty <;> simp only [CodeType.fits, Bool.and_eq_true, decide_eq_true_eq] at fits <;> simp only [wrap]
  · omega
  all_goals exact Int.bmod_eq_of_le (by omega) (by omega)

/-- A number fits a word if it fits any type. -/
theorem fits_i64 (fits : ty.fits n = true) : i64.fits n = true := by
  cases ty <;> simp only [CodeType.fits, Bool.and_eq_true, decide_eq_true_eq] at fits ⊢ <;> omega

theorem signed_ofInt_of_fits (fits : ty.fits n = true) : (ofInt n).signed = n := by
  rw [signed_ofInt]
  exact wrap_of_fits (fits_i64 fits)

/-- Registers keep what wrapping leaves of a number. -/
theorem normalize_ofInt (ty : CodeType) (n : Int) : ty.normalize (ofInt n) = ofInt (ty.wrap n) := by
  have divides : (2 : Int) ∣ (2 ^ 64 : Nat) := by decide
  rw [← signed_inj, signed_ofInt_of_fits (fits_wrap ty n)]
  change ty.signed _ = _
  rw [signed_eq_wrap, signed_ofInt]
  cases ty with
  | i1 => rw [wrap, wrap, ← Int.emod_emod_of_dvd (n.bmod _) divides, Int.bmod_emod, Int.emod_emod_of_dvd n divides]
  | _ => exact Int.bmod_bmod_of_dvd (by decide)

theorem normalize_of_fits (fits : ty.fits n = true) : ty.normalize (ofInt n) = ofInt n := by
  rw [normalize_ofInt, wrap_of_fits fits]

@[simp] theorem normalize_normalize (ty : CodeType) (w : Word) : ty.normalize (ty.normalize w) = ty.normalize w := by
  rw [← ofInt_signed w, normalize_ofInt, normalize_of_fits (fits_wrap ty _)]

/-- The number of a register that holds one of its type. -/
theorem signed_of_fits (fits : ty.fits n = true) : ty.signed (ofInt n) = n := by
  rw [signed, normalize_of_fits fits, signed_ofInt_of_fits fits]

theorem normalize_zeroExtend (ty : CodeType) (w : Word) : ty.normalize (ty.zeroExtend w) = ty.normalize w := by
  cases ty with
  | i1 => simp [normalize, zeroExtend, UInt64.and_assoc]
  | i8 => simp only [normalize, zeroExtend, UInt8.toUInt8_toUInt64]
  | i32 => simp only [normalize, zeroExtend, UInt32.toUInt32_toUInt64]
  | i64 | ptr => rfl

/-- The bits of a register determine its number. -/
theorem zeroExtend_inj (fitsA : ty.fits a = true) (fitsB : ty.fits b = true) :
    ty.zeroExtend (ofInt a) = ty.zeroExtend (ofInt b) ↔ a = b := by
  refine ⟨fun same => ?_, fun same => by rw [same]⟩
  have normal := congrArg ty.normalize same
  rw [normalize_zeroExtend, normalize_zeroExtend] at normal
  rw [← signed_of_fits fitsA, ← signed_of_fits fitsB, signed, signed, normal]

theorem fits_ofBool (b : Bool) : ty.fits (if b then 1 else 0) = true := by
  cases ty <;> cases b <;> rfl

@[simp] theorem normalize_ofBool (ty : CodeType) (b : Bool) : ty.normalize (ofBool b) = ofBool b := by
  rw [ofBool_eq, normalize_of_fits (fits_ofBool b)]

end CodeType

namespace BinaryOp

/-- Arithmetic on registers is arithmetic on the numbers in them. -/
theorem normalize_apply_exact (op : OverflowOp) (a b : Int)
    (same : binaryOp = match op with | .add => BinaryOp.add | .sub => .sub | .mul => .mul) :
    ty.normalize (binaryOp.apply ty (Word.ofInt a) (Word.ofInt b)) = Word.ofInt (ty.wrap (op.exact a b)) := by
  subst same
  cases op <;> simp only [apply, OverflowOp.exact, ← ofInt_add, ← ofInt_sub, ← ofInt_mul,
    normalize_ofInt]

theorem normalize_apply_sdiv (fitsA : ty.fits a = true) (fitsB : ty.fits b = true) :
    ty.normalize (apply .sdiv ty (ofInt a) (ofInt b)) = ofInt (ty.wrap (a.tdiv b)) := by
  rw [apply, signed_of_fits fitsA, signed_of_fits fitsB]
  split
  next zero =>
    rw [zero, Int.tdiv_zero]
    exact normalize_ofInt ty 0
  · exact normalize_ofInt ty _

end BinaryOp

theorem OverflowOp.apply_ofInt (op : OverflowOp) (fitsA : ty.fits a = true) (fitsB : ty.fits b = true) :
    op.apply ty (ofInt a) (ofInt b) = !ty.fits (op.exact a b) := by
  rw [apply, signed_of_fits fitsA, signed_of_fits fitsB]

/-- Whether a comparison of two numbers with signs holds. -/
def Predicate.holds (pred : Predicate) (a b : Int) : Bool :=
  match pred with
  | eq => a = b
  | ne => a ≠ b
  | slt | ult => a < b
  | sle | ule => a ≤ b
  | sgt | ugt => b < a
  | sge | uge => b ≤ a

/-- The comparison does not take its operands as numbers without a sign. -/
def Predicate.isSigned (pred : Predicate) : Bool :=
  match pred with
  | ult | ule | ugt | uge => false
  | _ => true

theorem Predicate.apply_ofInt {pred : Predicate} {a b : Int} (signed : pred.isSigned = true) (fitsA : ty.fits a = true)
    (fitsB : ty.fits b = true) :
    pred.apply ty (ofInt a) (ofInt b) = pred.holds a b := by
  have same := zeroExtend_inj fitsA fitsB
  have left := signed_of_fits fitsA
  have right := signed_of_fits fitsB
  cases pred <;> simp_all [apply, holds, isSigned]

end QueryEngine
