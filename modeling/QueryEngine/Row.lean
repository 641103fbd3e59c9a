import QueryEngine.Datum

namespace QueryEngine

abbrev Row := List Datum

inductive RowError where
  | casting (column : Nat) (detail : DatumError)
  | lengthMismatch (types values : Nat)
deriving Repr, DecidableEq

def RowError.message : RowError → String
  | casting column detail => "Casting error, column number " ++ toString column ++ ", detail : " ++ detail.message
  | lengthMismatch types values =>
    "Type array and value array length mismatch: " ++ toString types ++ " types, " ++ toString values ++ " values."

namespace Row

def text? (row : Row) : Option String := do
  some (String.intercalate "\t" (← row.mapM Datum.text?))

def coerceFrom (column : Nat) : List ValueType → Row → Checked RowError Row
  | ty :: types, d :: row => do
    let d ← (d.coerce ty).mapCause (.casting column)
    .ok (d :: (← coerceFrom (column + 1) types row))
  | _, _ => .ok []

/-- Coerces every value to the type of its column, or none of them. -/
def coerce (types : List ValueType) (row : Row) : Checked RowError Row :=
  if types.length = row.length then coerceFrom 0 types row
  else Checked.fail (.lengthMismatch types.length row.length)

end Row

end QueryEngine
