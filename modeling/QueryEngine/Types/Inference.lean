import QueryEngine.Fault
import QueryEngine.Types.Basic

namespace QueryEngine

inductive ArithOp where
  | add
  | sub
  | mul
  | div
deriving Repr, DecidableEq

namespace ArithOp

def verb : ArithOp → String
  | add => "add"
  | sub => "subtract"
  | mul => "multiply"
  | div => "divide"

def symbol : ArithOp → String
  | add => "+"
  | sub => "-"
  | mul => "*"
  | div => "/"

end ArithOp

inductive Comparison where
  | less
  | lessEq
  | equal
  | greaterEq
  | greater
deriving Repr, DecidableEq

def Comparison.symbol : Comparison → String
  | less => "<"
  | lessEq => "<="
  | equal => "="
  | greaterEq => ">="
  | greater => ">"

namespace ValueType

/-- Beside the NULL literal an operation works in the type of the other operand. -/
def besideUnknown (lhs rhs : ValueType) : Option ValueType :=
  match lhs.isUnknown, rhs.isUnknown with
  | true, true => some unknown
  | true, false => some rhs.asNullable
  | false, true => some lhs.asNullable
  | false, false => none

/-- Sums keep the operand with more fractional digits, and of two with as many the longer one. -/
def additive (op : ArithOp) (lhs rhs : ValueType) : Except TypeError ValueType :=
  match besideUnknown lhs rhs with
  | some ty => .ok ty
  | none =>
    let nullable := lhs.nullable || rhs.nullable
    match lhs.shape, rhs.shape with
    | .integer, .integer => .ok ⟨.integer, nullable⟩
    | .integer, .numeric l p | .numeric l p, .integer => .ok ⟨.numeric l p, nullable⟩
    | .numeric l₁ p₁, .numeric l₂ p₂ =>
      let left := p₂ < p₁ || (p₁ == p₂ && l₂ ≤ l₁)
      .ok ⟨if left then lhs.shape else rhs.shape, nullable⟩
    | _, _ => .error (.incompatible op.verb lhs rhs)

def numericParts? (ty : ValueType) : Option (UInt8 × UInt8) :=
  match ty.shape with
  | .integer => some (10, 0)
  | .numeric length precision => some (length, precision)
  | _ => none

/-- Byte addition that traps when the sum leaves the byte. -/
def addBytes? (a b : UInt8) : Option UInt8 := if a.toNat + b.toNat < 256 then some (a + b) else none

/-- Products have the fractional digits of both operands, and as many digits in all as fit. -/
def product (lhs rhs : ValueType) : Checked TypeError ValueType :=
  match besideUnknown lhs rhs with
  | some ty => .ok ty
  | none =>
    let nullable := lhs.nullable || rhs.nullable
    if lhs.shape = .integer ∧ rhs.shape = .integer then .ok (integer.withNullable nullable)
    else match lhs.numericParts?, rhs.numericParts? with
      | some (l₁, p₁), some (l₂, p₂) => do
        let precision ← Checked.orTrap (addBytes? p₁ p₂)
        if numericDigits < precision then
          Checked.fail (.numericOutOfRange (UInt8.ofNat (min (l₁.toNat + l₂.toNat) 255)) precision)
        else do
          let length ← Checked.orTrap (addBytes? l₁ l₂)
          .ok ((numeric (max precision (min length numericDigits)) precision).withNullable nullable)
      | _, _ => Checked.fail (.incompatible ArithOp.mul.verb lhs rhs)

def quotient (lhs rhs : ValueType) : Except TypeError ValueType :=
  match besideUnknown lhs rhs with
  | some ty => .ok ty
  | none =>
    let nullable := lhs.nullable || rhs.nullable
    match lhs.shape, rhs.shape with
    | .integer, .integer => .ok ⟨.integer, nullable⟩
    | .integer, .numeric l p | .numeric l p, .integer => .ok ⟨.numeric l p, nullable⟩
    | .numeric l₁ p₁, .numeric l₂ p₂ => .ok ⟨.numeric (max l₁ l₂) (max p₁ p₂), nullable⟩
    | _, _ => .error (.incompatible ArithOp.div.verb lhs rhs)

def arithmetic (op : ArithOp) (lhs rhs : ValueType) : Checked TypeError ValueType :=
  match op with
  | .add | .sub => (additive op lhs rhs).mapError .error
  | .mul => product lhs rhs
  | .div => (quotient lhs rhs).mapError .error

def comparison (lhs rhs : ValueType) : Except TypeError ValueType :=
  if lhs.isUnknown || rhs.isUnknown then .ok bool.asNullable
  else if lhs.comparable rhs then .ok (bool.withNullable (lhs.nullable || rhs.nullable))
  else .error (.incompatible "compare" lhs rhs)

end ValueType

end QueryEngine
