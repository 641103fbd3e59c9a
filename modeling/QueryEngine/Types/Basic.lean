import QueryEngine.Text.Number
import QueryEngine.Word

namespace QueryEngine

/-- What the values of a column are, apart from whether they may be NULL. -/
inductive Shape where
  /-- The NULL literal, before it is known what it stands beside. -/
  | unknown
  | bool
  | integer
  | char (length : UInt16)
  | varchar (capacity : UInt16)
  /-- Fixed point: `length` digits in all, `precision` of them after the point. -/
  | numeric (length precision : UInt8)
  | date
  | timestamp
deriving Repr, DecidableEq

structure ValueType where
  shape : Shape
  nullable : Bool
deriving Repr, DecidableEq

namespace ValueType

def unknown : ValueType := ⟨.unknown, true⟩

def bool : ValueType := ⟨.bool, false⟩

def integer : ValueType := ⟨.integer, false⟩

def char (length : UInt16) : ValueType := ⟨.char length, false⟩

def varchar (capacity : UInt16) : ValueType := ⟨.varchar capacity, false⟩

def numeric (length precision : UInt8) : ValueType := ⟨.numeric length precision, false⟩

def date : ValueType := ⟨.date, false⟩

def timestamp : ValueType := ⟨.timestamp, false⟩

def withNullable (ty : ValueType) (nullable : Bool) : ValueType := { ty with nullable }

def asNullable (ty : ValueType) : ValueType := ty.withNullable true

def asNotNull (ty : ValueType) : ValueType := ty.withNullable false

def sameShape (a b : ValueType) : Bool := a.shape = b.shape

def isUnknown (ty : ValueType) : Bool := ty.shape = .unknown

def isString (ty : ValueType) : Bool :=
  match ty.shape with
  | .char _ | .varchar _ => true
  | _ => false

def isNumeric (ty : ValueType) : Bool :=
  match ty.shape with
  | .numeric _ _ => true
  | _ => false

def precision (ty : ValueType) : UInt8 :=
  match ty.shape with
  | .numeric _ precision => precision
  | _ => 0

/-- Whether values of the two types can be compared. Strings compare by content, so declared lengths do not matter. -/
def comparable (a b : ValueType) : Bool :=
  match a.shape, b.shape with
  | .char _, .char _ => true
  | .varchar _, .varchar _ => true
  | _, _ => a.sameShape b

/-- Bytes of a value in a column or a tuple. A string takes an address and a length. -/
def size (ty : ValueType) : Nat :=
  match ty.shape with
  | .unknown => 0
  | .bool => 1
  | .integer | .date => 4
  | .numeric _ _ | .timestamp => 8
  | .char _ | .varchar _ => 16

def alignment (ty : ValueType) : Nat :=
  match ty.size with
  | 0 => 1
  | size => min size 8

/-- The bits that stand for NULL where NULL is a value of its own. For a string they take the place of the address. -/
def sentinel (ty : ValueType) : Word :=
  match ty.shape with
  | .unknown | .char _ | .varchar _ => 0
  | .bool => 2
  | .integer | .date => Word.ofInt (-2147483648)
  | .numeric _ _ | .timestamp => Word.ofInt int64Min

def text (ty : ValueType) : String :=
  let shape := match ty.shape with
    | .unknown => "unknown"
    | .bool => "bool"
    | .integer => "integer"
    | .char length => "char(" ++ toString length.toNat ++ ")"
    | .varchar capacity => "varchar(" ++ toString capacity.toNat ++ ")"
    | .numeric length precision => "numeric(" ++ toString length.toNat ++ "," ++ toString precision.toNat ++ ")"
    | .date => "date"
    | .timestamp => "timestamp"
  if ty.nullable && !ty.isUnknown then shape ++ " null" else shape

end ValueType

def numericDigits : UInt8 := 18

inductive TypeError where
  | unreadable (text : String)
  | incompatible (verb : String) (lhs rhs : ValueType)
  | invalidOperand (operation : String) (ty : ValueType)
  | numericOutOfRange (length precision : UInt8)
deriving Repr, DecidableEq

def TypeError.message : TypeError → String
  | unreadable text => "Unable to parse SqlType from creation SQL: " ++ text ++ "."
  | incompatible verb lhs rhs => "cannot " ++ verb ++ " '" ++ lhs.text ++ "' and '" ++ rhs.text ++ "'"
  | invalidOperand operation ty => "cannot apply " ++ operation ++ " to '" ++ ty.text ++ "'"
  | numericOutOfRange length precision =>
    "numeric(" ++ toString length.toNat ++ "," ++ toString precision.toNat ++ ") is out of range"

end QueryEngine
