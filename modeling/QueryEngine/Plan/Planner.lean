import QueryEngine.Plan.Basic
import QueryEngine.Settings
import QueryEngine.Storage.Database

namespace QueryEngine

inductive PlannerError where
  | unknownSymbol (name : String)
  | unknownAlias (name : String)
  | duplicateAlias (name : String)
  | unknownBranch (id : Nat)
  | arity (table : String) (expected given : Nat)
  | notNullable (table column : String) (ty : ValueType)
  | database (cause : DatabaseError)
  | plan (cause : PlanError)
  | scalar (cause : ScalarError)

def PlannerError.message : PlannerError → String
  | unknownSymbol name => "Invalid operation: unknown symbol " ++ name ++ "."
  | unknownAlias name => "Invalid operation: unknown alias " ++ name ++ "."
  | duplicateAlias name => "Alias " ++ name ++ " is already in use."
  | unknownBranch id => "No branch with id " ++ toString id ++ "."
  | arity name expected given =>
    "Table " ++ name ++ " has " ++ toString expected ++ " columns, got " ++ toString given ++ " values."
  | notNullable name column ty => "Column " ++ column ++ " of " ++ name ++ " cannot hold a " ++ ty.text ++ " value."
  | database cause => cause.message
  | plan cause => cause.message
  | scalar cause => cause.message

/-- What building the plan of one query needs. The newest attribute of a name is the one that is seen. -/
structure Planner where
  database : Database
  branch : Nat
  plan : Plan := {}
  attributes : Attributes := {}
  symbols : List (String × Attribute) := []
  /-- Names that hide those of `symbols`. -/
  given : List (String × Attribute) := []
  /-- The table that an alias stands for, and the attribute of its row id. -/
  aliases : List (String × String × Attribute) := []

namespace Planner

def start (database : Database) (settings : Settings) : Except PlannerError Planner :=
  if database.branches.any fun branch => branch.id = settings.branch then .ok { database, branch := settings.branch }
  else .error (.unknownBranch settings.branch)

/-- The attribute named `alias.column`; `alias.tid` is the row id. -/
def symbol (p : Planner) (name : String) : Except PlannerError Attribute :=
  match p.symbols.lookup name with
  | some a => .ok a
  | none => .error (.unknownSymbol name)

def attributeNamed (p : Planner) (name : String) : Except PlannerError Attribute :=
  match p.given.lookup name with
  | some a => .ok a
  | none => p.symbol name

def give (p : Planner) (name : String) (a : Attribute) : Planner := { p with given := (name, a) :: p.given }

def aliased (p : Planner) (name : String) : Except PlannerError (String × Attribute) :=
  match p.aliases.lookup name with
  | some found => .ok found
  | none => .error (.unknownAlias name)

def tableNamed (p : Planner) (name : String) : Except PlannerError Table := (p.database.table name).mapError .database

def newValue (p : Planner) (name : String) (ty : ValueType) : Attribute × Planner :=
  let (a, attributes) := p.attributes.value (some name) ty
  (a, { p with attributes, symbols := (name, a) :: p.symbols })

def withPlan (p : Planner) (change : Plan → Except PlanError (Nat × Plan)) : Except PlannerError (Nat × Planner) := do
  let (id, plan) ← (change p.plan).mapError .plan
  return (id, { p with plan })

def add (p : Planner) (op : Operator) : Except PlannerError (Nat × Planner) := p.withPlan fun plan => plan.add op

def addColumns (scan : Nat) (table label : String) :
    (index : Nat) → List (String × ValueType) → Planner → List (Nat × Attribute) × Planner
  | _, [], p => ([], p)
  | index, (name, ty) :: columns, p =>
    let (a, attributes) := p.attributes.column scan table index name ty
    let p := { p with attributes, symbols := (label ++ "." ++ name, a) :: p.symbols }
    let (rest, p) := addColumns scan table label (index + 1) columns p
    ((index, a) :: rest, p)

def scan (p : Planner) (table label : String) : Except PlannerError (Nat × Planner) := do
  if (p.aliases.lookup label).isSome then throw (.duplicateAlias label)
  let t ← p.tableNamed table
  let (scan, attributes) := p.attributes.newScan
  let (columns, p) := addColumns scan table label 0 (t.columnNames.zip t.columnTypes) { p with attributes }
  let (rowId, attributes) := p.attributes.rowId scan table
  let p := { p with
    attributes
    symbols := (label ++ ".tid", rowId) :: p.symbols
    aliases := (label, table, rowId) :: p.aliases }
  p.add (.scan { table, scan, columns, rowId, branch := p.branch })

/-- A value for a column, cast if need be. There is none for a value that may be NULL where the column cannot be. -/
def fit? (column : ValueType) (value : Scalar) : Option Scalar :=
  if value.ty.nullable && !column.nullable then none
  else if value.ty.isUnknown || value.ty = column then some value
  else some (.cast value (column.withNullable value.ty.nullable))

def fit (table name : String) (column : ValueType) (value : Scalar) : Except PlannerError Scalar :=
  match fit? column value with
  | some value => .ok value
  | none => .error (.notNullable table name value.ty)

def fitAll (table : String) : List Scalar → List (String × ValueType) → Except PlannerError (List Scalar)
  | value :: values, (name, ty) :: columns => do
    let value ← fit table name ty value
    return value :: (← fitAll table values columns)
  | _, _ => .ok []

def addRoot (p : Planner) (op : Operator) : Except PlannerError (Nat × Planner) :=
  p.withPlan fun plan => plan.addRoot op

def insert (p : Planner) (table : String) (values : List Scalar) : Except PlannerError (Nat × Planner) := do
  let t ← p.tableNamed table
  if values.length ≠ t.columns.size then throw (.arity table t.columns.size values.length)
  let values ← fitAll table values (t.columnNames.zip t.columnTypes)
  p.addRoot (.insert table t.columnTypes values p.branch)

def assignment (table : String) (t : Table) (column : String) (value : Scalar) : Except PlannerError Assignment := do
  let index ← (t.columnIndex column).mapError fun cause => .database (.table cause)
  match t.columnType? index with
  | some ty => return ⟨index, ty, ← fit table column ty value⟩
  | none => throw (.database (.table (.columnNotFound table column)))

def update (p : Planner) (child : Nat) (label : String) (values : List (String × Scalar)) :
    Except PlannerError (Nat × Planner) := do
  let (table, rowId) ← p.aliased label
  let t ← p.tableNamed table
  let assignments ← values.mapM fun (column, value) => assignment table t column value
  p.addRoot (.update child table rowId assignments p.branch)

def delete (p : Planner) (child : Nat) (label : String) : Except PlannerError (Nat × Planner) := do
  let (table, rowId) ← p.aliased label
  p.addRoot (.delete child table rowId p.branch)

end Planner

end QueryEngine
