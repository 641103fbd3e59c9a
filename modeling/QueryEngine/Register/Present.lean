import QueryEngine.Register.Hashing

namespace QueryEngine

/-- A value in registers that is not NULL. A bool is an `i8` that is 0 or 1, an integer or a date an `i32`, a numeric or
a timestamp an `i64`; a string is an address and an `i64` length. -/
inductive Present where
  | bool (r : Reg)
  | integer (r : Reg)
  | numeric (raw : Reg) (length precision : UInt8)
  | char (address len : Reg) (length : UInt16)
  | varchar (address len : Reg) (capacity : UInt16)
  | date (r : Reg)
  | timestamp (r : Reg)
deriving Repr, DecidableEq

namespace Emit

def reportIf (cond : Reg) (routine : Routine) (message : String) : Emit Unit :=
  ifThen cond do
    let (address, len) ← constBytes (textBytes message)
    callEffect routine [address, len]

/-- Division that reports a zero divisor and then gives zero. -/
def divide (a b : Reg) : Emit Reg := do
  let ty ← typeOf b
  let zero ← const ty 0
  let one ← const ty 1
  let isZero ← compare .eq b zero
  reportIf isZero .reportDivisionByZero "division by zero"
  let divisor ← select isZero one b
  let quotient ← binary .sdiv a divisor
  select isZero zero quotient

def checkedBy (op : ArithOp) (binaryOp : BinaryOp) (overflowOp : OverflowOp) (a b : Reg) : Emit Reg := do
  let result ← binary binaryOp a b
  let overflowed ← overflows overflowOp a b
  let message := "overflow in " ++ op.verb ++ " of " ++ (← typeOf a).text
  reportIf overflowed .reportOverflow message
  return result

/-- Arithmetic that reports a result that does not fit, or a zero divisor. -/
def checked (op : ArithOp) (a b : Reg) : Emit Reg :=
  match op with
  | .add => checkedBy op .add .add a b
  | .sub => checkedBy op .sub .sub a b
  | .mul => checkedBy op .mul .mul a b
  | .div => divide a b

def rescale (raw : Reg) (source target : UInt8) : Emit Reg := do
  if target = source then return raw
  else if source < target then
    let factor ← const .i64 (← orTrap (powerOfTen? (target - source)))
    checked .mul raw factor
  else
    let factor ← const .i64 (← orTrap (powerOfTen? (source - target)))
    binary .sdiv raw factor

/-- Negative, zero or positive as the first string sorts before, with or after the second one. -/
def stringOrder (address₁ len₁ address₂ len₂ : Reg) : Emit Reg := do
  let shorter ← compare .ult len₁ len₂
  let count ← select shorter len₁ len₂
  let order ← callValue .compareBytes [address₁, address₂, count]
  let order ← resize order .i64 true
  let zero ← const .i64 0
  let samePrefix ← compare .eq order zero
  let difference ← binary .sub len₁ len₂
  select samePrefix difference order

end Emit

/-- Register type and byte offset of each part of a value in memory. -/
def ValueType.parts? (ty : ValueType) : Option (List (CodeType × Nat)) :=
  match ty.shape with
  | .unknown => none
  | .bool => some [(.i8, 0)]
  | .integer | .date => some [(.i32, 0)]
  | .numeric _ _ | .timestamp => some [(.i64, 0)]
  | .char _ | .varchar _ => some [(.ptr, 0), (.i64, 8)]

def Comparison.predicate : Comparison → Predicate
  | less => .slt
  | lessEq => .sle
  | equal => .eq
  | greaterEq => .sge
  | greater => .sgt

namespace Present

open Emit

def ty : Present → ValueType
  | bool _ => .bool
  | integer _ => .integer
  | numeric _ length precision => .numeric length precision
  | char _ _ length => .char length
  | varchar _ _ capacity => .varchar capacity
  | date _ => .date
  | timestamp _ => .timestamp

def regs : Present → List Reg
  | bool r | integer r | date r | timestamp r => [r]
  | numeric raw _ _ => [raw]
  | char address len _ | varchar address len _ => [address, len]

def ofRegs? (shape : Shape) (regs : List Reg) : Option Present :=
  match shape, regs with
  | .bool, [r] => some (bool r)
  | .integer, [r] => some (integer r)
  | .numeric length precision, [raw] => some (numeric raw length precision)
  | .char length, [address, len] => some (char address len length)
  | .varchar capacity, [address, len] => some (varchar address len capacity)
  | .date, [r] => some (date r)
  | .timestamp, [r] => some (timestamp r)
  | _, _ => none

def ofRegs (ty : ValueType) (regs : List Reg) : Emit Present :=
  match ofRegs? ty.shape regs with
  | some value => return value
  | none => failValue (.partCount regs.length ty)

def build (ty : ValueType) (part : CodeType × Nat → Emit Reg) : Emit Present := do
  match ty.parts? with
  | none => failValue .unknownType
  | some parts => ofRegs ty (← parts.mapM part)

/-- A placeholder: zero, or an empty string at the null address. -/
def zero (ty : ValueType) : Emit Present := build ty fun part => const part.1 0

def constant (d : Datum) (ty : ValueType) : Emit Present := do
  let ty := ty.asNotNull
  match ← ofChecked .datum (d.coerce ty) with
  | .bool value => return bool (← const .i8 (if value then 1 else 0))
  | .integer n => return integer (← const .i32 n.toInt)
  | .date day => return date (← const .i32 day.toInt)
  | .timestamp second => return timestamp (← const .i64 second.toInt)
  | .numeric raw _ => ofRegs ty [← const .i64 raw.toInt]
  | .char text | .varchar text => do
    let (address, len) ← constBytes (textBytes text)
    ofRegs ty [address, len]
  | .null => fail (.datum (.nullNotAllowed ty))

def load (ty : ValueType) (address : Reg) : Emit Present :=
  build ty fun part => do
    let address ← ptrOffset address part.2
    Emit.load part.1 address

def storeParts (address : Reg) : List Reg → List (CodeType × Nat) → Emit Unit
  | r :: regs, part :: parts => do
    let target ← ptrOffset address part.2
    Emit.store r target
    storeParts address regs parts
  | _, _ => return

def store (value : Present) (address : Reg) : Emit Unit :=
  match value.ty.parts? with
  | none => failValue .unknownType
  | some parts => storeParts address value.regs parts

def selectRegs (cond : Reg) : List Reg → List Reg → Emit (List Reg)
  | a :: first, b :: second => do
    let chosen ← Emit.select cond a b
    return chosen :: (← selectRegs cond first second)
  | _, _ => return []

def select (cond : Reg) (a b : Present) : Emit Present := do ofRegs a.ty (← selectRegs cond a.regs b.regs)

def hash : Present → Emit Reg
  | bool r => do mix (← resize r .i64 false)
  | integer r | date r => do mix (← resize r .i64 true)
  | numeric r _ _ | timestamp r => mix r
  | char address len _ | varchar address len _ => callValue .hashBytes [address, len]

def string? : Present → Option (Reg × Reg)
  | char address len _ | varchar address len _ => some (address, len)
  | _ => none

def compare (mode : Comparison) (a b : Present) : Emit Reg :=
  let pred := mode.predicate
  let incompatible : Emit Reg := fail (.type (.incompatible "compare" a.ty b.ty))
  match a, b with
  | bool x, bool y | integer x, integer y | date x, date y | timestamp x, timestamp y => Emit.compare pred x y
  | numeric x _ p, numeric y _ q => do
    let x ← rescale x p (max p q)
    let y ← rescale y q (max p q)
    Emit.compare pred x y
  | _, _ => match a.string?, b.string? with
    | some (address₁, len₁), some (address₂, len₂) =>
      if a.ty.comparable b.ty then do
        let order ← stringOrder address₁ len₁ address₂ len₂
        let zero ← const .i64 0
        Emit.compare pred order zero
      else incompatible
    | _, _ => incompatible

/-- A number with its precision. Integers take part in mixed arithmetic as `numeric(10,0)`. -/
def widen : Present → Emit (Option (Reg × UInt8 × UInt8))
  | integer r => do return some (← resize r .i64 true, 10, 0)
  | numeric raw length precision => return some (raw, length, precision)
  | _ => return none

def isNumber : Present → Bool
  | integer _ | numeric _ _ _ => true
  | _ => false

def numericArithmetic (op : ArithOp) (precision : UInt8) (a : Reg) (p : UInt8) (b : Reg) (q : UInt8) : Emit Reg :=
  match op with
  | .add | .sub => do
    let a ← rescale a p precision
    let b ← rescale b q precision
    checked op a b
  | .mul => do
    let product ← checked op a b
    rescale product (← orTrap (ValueType.addBytes? p q)) precision
  | .div => do
    let scale := (← orTrap (ValueType.addBytes? precision q)).toNat - p.toNat
    let numerator ← rescale a 0 (UInt8.ofNat scale)
    divide numerator b

/-- The result of arithmetic as a value of type `result`, which is not nullable. -/
def arithmetic (op : ArithOp) (result : ValueType) (a b : Present) : Emit Present :=
  let incompatible (lhs rhs : ValueType) : Emit Present := fail (.type (.incompatible op.verb lhs rhs))
  match result.shape with
  | .integer => match a, b with
    | integer x, integer y => do return integer (← checked op x y)
    | _, _ => do
      if a.isNumber && b.isNumber then
        match ← a.widen, ← b.widen with
        | some (_, l, p), some (_, k, q) => incompatible (.numeric l p) (.numeric k q)
        | _, _ => incompatible a.ty b.ty
      else incompatible a.ty b.ty
  | .numeric length precision => do
    if a.isNumber && b.isNumber then
      match ← a.widen, ← b.widen with
      | some (x, _, p), some (y, _, q) => return numeric (← numericArithmetic op precision x p y q) length precision
      | _, _ => incompatible a.ty b.ty
    else incompatible a.ty b.ty
  | _ => incompatible a.ty b.ty

def cast (target : ValueType) (value : Present) : Emit Present :=
  if value.ty.sameShape target then return value
  else match value, target.shape with
    | integer r, .numeric length precision => do
      let wide ← resize r .i64 true
      return numeric (← rescale wide 0 precision) length precision
    | numeric raw _ source, .numeric length precision => do
      return numeric (← rescale raw source precision) length precision
    | numeric raw _ precision, .integer => do
      let whole ← rescale raw precision 0
      return integer (← resize whole .i32 true)
    | char address len _, .char length | varchar address len _, .char length => return char address len length
    | char address len _, .varchar capacity | varchar address len _, .varchar capacity =>
      return varchar address len capacity
    | date day, .timestamp => do
      let wide ← resize day .i64 true
      let seconds ← const .i64 86400
      return timestamp (← checked .mul wide seconds)
    | _, _ => fail (.cast value.ty target)

def print : Present → Emit Unit
  | bool r => callEffect .printBool [r]
  | integer r => callEffect .printInteger [r]
  | numeric raw _ precision => do
    let precision ← const .i32 precision.toNat
    callEffect .printNumeric [raw, precision]
  | char address len _ | varchar address len _ => callEffect .printString [address, len]
  | date r => callEffect .printDate [r]
  | timestamp r => callEffect .printTimestamp [r]

def smaller (a b : Present) : Emit Present := do
  let less ← compare .less a b
  select less a b

end Present

end QueryEngine
