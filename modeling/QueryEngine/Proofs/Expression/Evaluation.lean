import QueryEngine.Proofs.Expression.Diagnostics

namespace QueryEngine

/-- Whether a comparison holds of two values that are ordered so. -/
def Comparison.holds : Comparison → Ordering → Bool
  | less, order => order.isLT
  | lessEq, order => order.isLE
  | equal, order => order.isEq
  | greaterEq, order => order.isGE
  | greater, order => order.isGT

/-- Texts sort by their bytes; one that another one starts with comes first. -/
def textOrder (first second : String) : Ordering := compareOfLessAndEq (textBytes first) (textBytes second)

namespace Datum

/-- A number with its fractional digits. -/
def number? : Datum → Option (Int × UInt8)
  | integer n => some (n.toInt, 0)
  | numeric raw precision => some (raw.toInt, precision)
  | _ => none

/-- Arithmetic on values that are not NULL, with a result of shape `shape`. -/
def arithmetic (op : ArithOp) (shape : Shape) (a b : Datum) : Evaluation Datum :=
  match shape with
  | .integer => match a, b with
    | integer x, integer y => do return integer (Int32.ofInt (← op.compute .i32 x.toInt y.toInt))
    | _, _ => .ofOption none
  | .numeric _ precision => do
    let (x, p) ← .ofOption a.number?
    let (y, q) ← .ofOption b.number?
    return numeric (Int64.ofInt (← op.computeDecimal precision x p y q)) precision
  | _ => .ofOption none

/-- How two values sort that are not NULL. -/
def order (a b : Datum) : Evaluation Ordering :=
  match a, b with
  | bool x, bool y => return Ord.compare x y
  | integer x, integer y | date x, date y => return Ord.compare x.toInt y.toInt
  | timestamp x, timestamp y => return Ord.compare x.toInt y.toInt
  | numeric x p, numeric y q => do
    let x ← .rescale x.toInt p (max p q)
    let y ← .rescale y.toInt q (max p q)
    return Ord.compare x y
  | char x, char y | varchar x, varchar y => return textOrder x y
  | _, _ => .ofOption none

/-- A value that is not NULL in another shape. Strings are taken as they are, whatever the declared length. -/
def castTo (shape : Shape) (d : Datum) : Evaluation Datum :=
  match d, shape with
  | bool x, .bool => return bool x
  | integer n, .integer => return integer n
  | date day, .date => return date day
  | timestamp second, .timestamp => return timestamp second
  | integer n, .numeric _ precision => do return numeric (Int64.ofInt (← .rescale n.toInt 0 precision)) precision
  | numeric raw p, .numeric _ precision => do return numeric (Int64.ofInt (← .rescale raw.toInt p precision)) precision
  | numeric raw p, .integer => do return integer (Int32.ofInt (← .rescale raw.toInt p 0))
  | char text, .char _ | varchar text, .char _ => return char text
  | char text, .varchar _ | varchar text, .varchar _ => return varchar text
  | date day, .timestamp => do return timestamp (Int64.ofInt (← ArithOp.mul.compute .i64 day.toInt 86400))
  | _, _ => .ofOption none

/-- One of the three truth values, where none is NULL. -/
def truth? : Datum → Option (Option Bool)
  | null => some none
  | bool value => some (some value)
  | _ => none

def ofTruth : Option Bool → Datum
  | none => null
  | some value => bool value

/-- NULL where the operand is, and nothing is done then. -/
def unlessNull (a : Datum) (operation : Datum → Evaluation Datum) : Evaluation Datum :=
  if a.isNull then return null else operation a

/-- NULL where one of the operands is, and nothing is done then. -/
def unlessNull₂ (a b : Datum) (operation : Datum → Datum → Evaluation Datum) : Evaluation Datum :=
  if a.isNull || b.isNull then return null else operation a b

def negate : Datum → Evaluation Datum
  | bool value => return bool (!value)
  | _ => .ofOption none

def compare (mode : Comparison) (a b : Datum) : Evaluation Datum := do return bool (mode.holds (← a.order b))

/-- A false operand decides, whatever the other one is; else a NULL one does. -/
def conjunction : Option Bool → Option Bool → Option Bool
  | some false, _ | _, some false => some false
  | some true, some true => some true
  | _, _ => none

/-- A true operand decides, whatever the other one is; else a NULL one does. -/
def disjunction : Option Bool → Option Bool → Option Bool
  | some true, _ | _, some true => some true
  | some false, some false => some false
  | _, _ => none

def connect (combine : Option Bool → Option Bool → Option Bool) (a b : Datum) : Evaluation Datum := do
  let p ← .ofOption a.truth?
  let q ← .ofOption b.truth?
  return ofTruth (combine p q)

end Datum

/-- The values of one row, by attribute. The first value of an attribute counts. -/
abbrev ValueRow := List (Attribute × Datum)

def ValueRow.value? (row : ValueRow) (a : Attribute) : Option Datum :=
  (row.find? fun item => item.1.id = a.id).map Prod.snd

/-- The value of an expression for a row, with the diagnostics on the way to it. -/
def Scalar.evaluate (row : ValueRow) : Scalar → Evaluation Datum
  | cast child ty => do
    let d ← child.evaluate row
    d.unlessNull (Datum.castTo ty.shape)
  | not child => do
    let d ← child.evaluate row
    d.unlessNull Datum.negate
  | arithmetic op lhs rhs ty => do
    let a ← lhs.evaluate row
    let b ← rhs.evaluate row
    a.unlessNull₂ b (Datum.arithmetic op ty.shape)
  | compare mode lhs rhs => do
    let a ← lhs.evaluate row
    let b ← rhs.evaluate row
    a.unlessNull₂ b (Datum.compare mode)
  | and lhs rhs => do
    let a ← lhs.evaluate row
    let b ← rhs.evaluate row
    a.connect Datum.conjunction b
  | or lhs rhs => do
    let a ← lhs.evaluate row
    let b ← rhs.evaluate row
    a.connect Datum.disjunction b
  | column a => .ofOption (row.value? a)
  | literal value ty => if value.isNull then return .null else .ofOption (value.coerce ty.asNotNull).toOption
  | null => return .null

end QueryEngine
