import QueryEngine.Register.Present

namespace QueryEngine

inductive Held where
  | unknown
  | present (value : Present)
  /-- NULL when the bit `isNull` is set; `value` is a placeholder then. -/
  | nullable (value : Present) (isNull : Reg)
deriving Repr, DecidableEq

namespace NullEncoding

open Emit

/-- The first register of a value, and one with the sentinel of its type. -/
def sentinelOf (value : Present) : Emit (Reg × Reg) := do
  let first ← orTrap value.regs.head?
  let marker ← const (← typeOf first) value.ty.sentinel.signed
  return (first, marker)

/-- The bit that says whether a value that has been loaded is NULL. `indicator` is what has been loaded beside it. -/
def nullFlag (encoding : NullEncoding) (value : Present) (indicator : Option Reg) : Emit Reg :=
  match encoding, indicator with
  | .indicator, some flag => do
    let zero ← const (← typeOf flag) 0
    compare .ne flag zero
  | .indicator, none => failValue (.noIndicator value.ty)
  | .sentinel, _ => do
    let (first, marker) ← sentinelOf value
    compare .eq first marker

/-- The value that is written to memory for a nullable one. -/
def storedValue (encoding : NullEncoding) (value : Present) (isNull : Reg) : Emit Present :=
  match encoding with
  | .indicator => return value
  | .sentinel => do
    let (first, marker) ← sentinelOf value
    let chosen ← select isNull marker first
    Present.ofRegs value.ty (chosen :: value.regs.tail)

end NullEncoding

namespace Held

open Emit

def ty : Held → ValueType
  | unknown => .unknown
  | present value => value.ty
  | nullable value _ => value.ty.asNullable

def value? : Held → Option Present
  | unknown => none
  | present value | nullable value _ => some value

def flags : Held → List Reg
  | unknown | present _ => []
  | nullable _ isNull => [isNull]

/-- The registers of a value. A nullable one ends with its flag. -/
def regs : Held → List Reg
  | unknown => []
  | present value => value.regs
  | nullable value isNull => value.regs ++ [isNull]

def ofRegs (ty : ValueType) (regs : List Reg) : Emit Held :=
  if ty.isUnknown then return unknown
  else if !ty.nullable then do return present (← Present.ofRegs ty regs)
  else match regs.getLast? with
    | some isNull => do return nullable (← Present.ofRegs ty regs.dropLast) isNull
    | none => failValue (.noParts ty)

def null (ty : ValueType) : Emit Held := do
  if ty.isUnknown then return unknown
  let value ← Present.zero ty
  return nullable value (← constBool true)

/-- Gives the value the form of type `ty`: one that cannot be NULL gets a flag when `ty` is nullable. -/
def withNullability (ty : ValueType) : Held → Emit Held
  | unknown => null ty.asNullable
  | present value => if ty.nullable then do return nullable value (← constBool false) else return present value
  | nullable value isNull =>
    if ty.nullable then return nullable value isNull else failValue (.unexpectedNullable value.ty ty)

def constant (d : Datum) (ty : ValueType) : Emit Held := do
  if d.isNull then null ty else (present (← Present.constant d ty)).withNullability ty

def isNull : Held → Emit Reg
  | unknown => constBool true
  | present _ => constBool false
  | nullable _ isNull => return isNull

def load (ty : ValueType) (address : Reg) (indicator : Option Reg) : Emit Held := do
  if ty.isUnknown then return unknown
  let value ← Present.load ty address
  if !ty.nullable then return present value
  return nullable value (← (← encoding).nullFlag value indicator)

def checkStorable (ty : ValueType) (value : Held) : Emit Unit :=
  match value.value? with
  | some v =>
    if v.ty.size = ty.size ∧ v.ty.precision = ty.precision then return
    else failValue (.store v.ty ty)
  | none => return

def store (ty : ValueType) (address : Reg) (indicator : Option Reg) (value : Held) : Emit Unit := do
  if ty.isUnknown then return
  value.checkStorable ty
  match ← value.withNullability ty with
  | unknown => return
  | present v => v.store address
  | nullable v isNull =>
    (← (← encoding).storedValue v isNull).store address
    match indicator with
    | some target => do
      let flag ← resize isNull .i8 false
      Emit.store flag target
    | none => return

def hash : Held → Emit Reg
  | unknown => constWord Hash.ofNull
  | present value => value.hash
  | nullable value isNull => do
    let h ← value.hash
    let ofNull ← constWord Hash.ofNull
    select isNull ofNull h

def checkComparable (a b : Held) : Emit Unit :=
  match ValueType.comparison a.ty b.ty with
  | .ok _ => return
  | .error cause => fail (.type cause)

/-- A single bit: whether the values are the same. NULL is the same as NULL. -/
def equals (a b : Held) : Emit Reg := do
  checkComparable a b
  match a, b with
  | present x, present y => Present.compare .equal x y
  | _, _ =>
    let aNull ← a.isNull
    let bNull ← b.isNull
    let bothNull ← binary .and aNull bNull
    let eitherNull ← binary .or aNull bNull
    let same ← match a.value?, b.value? with
      | some x, some y => Present.compare .equal x y
      | _, _ => constBool false
    let neitherNull ← Emit.not eitherNull
    let sameValues ← binary .and neitherNull same
    binary .or bothNull sameValues

/-- Runs `code` where no flag is set; the result is NULL elsewhere. -/
def guarded (flags : List Reg) (ty : ValueType) (code : Emit Present) : Emit Held :=
  match flags with
  | [] => do return present (← code)
  | first :: rest => do
    let anyNull ← rest.foldlM (fun any flag => binary .or any flag) first
    let merged ← ifThenElse anyNull (do return (← Present.zero ty).regs) (do return (← code).regs)
    return nullable (← Present.ofRegs ty merged) anyNull

def lift (ty : ValueType) (code : Present → Emit Present) (a : Held) : Emit Held :=
  match a.value? with
  | some x => guarded a.flags ty.asNotNull (code x)
  | none => null ty.asNotNull

def lift₂ (ty : ValueType) (code : Present → Present → Emit Present) (a b : Held) : Emit Held :=
  match a.value?, b.value? with
  | some x, some y => guarded (a.flags ++ b.flags) ty.asNotNull (code x y)
  | _, _ => null ty.asNotNull

def compare (mode : Comparison) (a b : Held) : Emit Held := do
  checkComparable a b
  lift₂ .bool (fun x y => do
    let bit ← Present.compare mode x y
    return .bool (← resize bit .i8 false)) a b

def expectBool (operation : String) (a : Held) : Emit Unit :=
  match a.ty.shape with
  | .bool | .unknown => return
  | _ => fail (.type (.invalidOperand operation a.ty))

/-- A single bit: whether the value is true, and so not NULL. -/
def isTrue (a : Held) : Emit Reg := do
  a.expectBool "a condition"
  let zero ← const .i8 0
  match a with
  | unknown => constBool false
  | present (.bool r) => Emit.compare .ne r zero
  | nullable (.bool r) isNull => do
    let set ← Emit.compare .ne r zero
    let present ← Emit.not isNull
    binary .and present set
  | _ => trap

def arithmetic (op : ArithOp) (ty : ValueType) (a b : Held) : Emit Held :=
  lift₂ ty (Present.arithmetic op ty.asNotNull) a b

def cast (ty : ValueType) (a : Held) : Emit Held :=
  match a with
  | unknown => null ty
  | _ => do
    let result ← a.lift ty (Present.cast ty.asNotNull)
    if ty.nullable then result.withNullability ty else return result

def not (a : Held) : Emit Held := do
  a.expectBool "not"
  a.lift .bool fun value => match value with
    | .bool r => do
      let one ← const .i8 1
      return .bool (← binary .xor r one)
    | _ => trap

def truth (a : Held) : Emit (Reg × Reg) := do
  let isNull ← a.isNull
  match a.value? with
  | some (.bool r) => do
    let zero ← const .i8 0
    return (← Emit.compare .ne r zero, isNull)
  | _ => return (← constBool false, isNull)

/-- AND and OR over operands of which one may be NULL. One operand may decide the result alone: a false one for AND, a
true one for OR. -/
def connectiveNullable (isAnd : Bool) (a b : Held) : Emit Held := do
  let (aSet, aNull) ← a.truth
  let (bSet, bNull) ← b.truth
  let aDecides ← if isAnd then Emit.not aSet else pure aSet
  let bDecides ← if isAnd then Emit.not bSet else pure bSet
  let aPresent ← Emit.not aNull
  let bPresent ← Emit.not bNull
  let aDecides ← binary .and aPresent aDecides
  let bDecides ← binary .and bPresent bDecides
  let decided ← binary .or aDecides bDecides
  let anyNull ← binary .or aNull bNull
  let undecided ← Emit.not decided
  let isNull ← binary .and undecided anyNull
  return nullable (.bool (← resize (if isAnd then undecided else decided) .i8 false)) isNull

def connective (isAnd : Bool) (a b : Held) : Emit Held := do
  let operation := if isAnd then "and" else "or"
  a.expectBool operation
  b.expectBool operation
  match a, b with
  | present (.bool x), present (.bool y) => do
    return present (.bool (← binary (if isAnd then .and else .or) x y))
  | _, _ => connectiveNullable isAnd a b

def and (a b : Held) : Emit Held := connective true a b

def or (a b : Held) : Emit Held := connective false a b

def print : Held → Emit Unit
  | unknown => callEffect .printNull []
  | present value => value.print
  | nullable value isNull => discard
      (ifThenElse isNull (do callEffect .printNull []; return []) (do value.print; return []))

/-- Chooses among the values that are not NULL: the other one where one is NULL, else what `choose` gives. The result
is NULL only where both are. -/
def mergeNonNull (ty : ValueType) (choose : Present → Present → Emit Present) (a b : Held) : Emit Held := do
  let ty := ty.asNullable
  let a ← a.withNullability ty
  let b ← b.withNullability ty
  match a, b with
  | nullable x xNull, nullable y yNull => do
    let chosen ← choose x y
    let whenYPresent ← Present.select yNull x chosen
    let value ← Present.select xNull y whenYPresent
    return nullable value (← binary .and xNull yNull)
  | _, _ => null ty

def min (ty : ValueType) (a b : Held) : Emit Held := mergeNonNull ty Present.smaller a b

end Held

end QueryEngine
