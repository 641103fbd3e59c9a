import QueryEngine.Proofs.Query.Pipelines
import QueryEngine.Proofs.Storage.Updates

set_option synthInstance.maxSize 512

namespace QueryEngine

open Emit Host.Attains List Word Checked

namespace Database

variable {db : Database} {name : String}

end Database

/-- The expression is of the type of a column, or it is NULL where the column has NULL. -/
def Scalar.Fits (e : Scalar) (column : ValueType) : Prop :=
  e.ty.shape = column.shape ∨ e.ty.shape = .unknown ∧ column.nullable = true

namespace Planner

end Planner

section

variable {host : Host} {s : Point}

end

namespace Planner.Example

/-- The values of a new row: a sum, and NULL. -/
def newRow : List Scalar := [.arithmetic .add (.literal (.integer 2) .integer) (.literal (.integer 3) .integer) .integer, .null]

def inserted (db : Database) : Except PlannerError (Nat × Planner) := { database := db, branch := 0 : Planner }.insert "t" newRow

end Planner.Example

end QueryEngine
