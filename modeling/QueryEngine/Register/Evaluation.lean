import QueryEngine.Register.Tuple
import QueryEngine.Scalar

namespace QueryEngine

/-- The values of one row, by attribute. The first value of an attribute counts. -/
abbrev HeldRow := List (Attribute × Held)

namespace HeldRow

def value? (row : HeldRow) (a : Attribute) : Option Held :=
  (row.find? fun item => item.1.id = a.id).map Prod.snd

def value (row : HeldRow) (a : Attribute) : Emit Held :=
  match row.value? a with
  | some value => return value
  | none => Emit.fail (.missingValue a)

def values (row : HeldRow) (attributes : List Attribute) : Emit (List Held) := attributes.mapM row.value

end HeldRow

def Scalar.emit (row : HeldRow) : Scalar → Emit Held
  | cast child ty => do (← child.emit row).cast ty
  | not child => do (← child.emit row).not
  | arithmetic op lhs rhs ty => do
    let a ← lhs.emit row
    let b ← rhs.emit row
    Held.arithmetic op ty a b
  | compare mode lhs rhs => do
    let a ← lhs.emit row
    let b ← rhs.emit row
    Held.compare mode a b
  | and lhs rhs => do
    let a ← lhs.emit row
    let b ← rhs.emit row
    Held.and a b
  | or lhs rhs => do
    let a ← lhs.emit row
    let b ← rhs.emit row
    Held.or a b
  | column a => row.value a
  | literal value ty => Held.constant value ty
  | null => return .unknown

end QueryEngine
