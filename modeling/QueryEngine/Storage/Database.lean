import QueryEngine.Storage.Table

namespace QueryEngine

/-- An index over one column. Queries do not use it. -/
structure Index where
  name : String
  table : String
  column : String
deriving Repr, DecidableEq

structure Branch where
  name : String
  id : Nat
  parent : Option Nat
deriving Repr, DecidableEq

/-- Tables and indexes are kept in the order of their names. -/
structure Database where
  encoding : NullEncoding
  tables : List Table := []
  indexes : List Index := []
  branches : Array Branch := #[⟨"master", masterBranch, none⟩]
  heap : TextHeap := { arena := .text }

inductive DatabaseError where
  | tableNotFound (name : String)
  | tableExists (name : String)
  | indexExists (name : String)
  | branchNotFound (name : String)
  | branchExists (name : String)
  | tooManyBranches
  | table (cause : TableError)
deriving Repr, DecidableEq

def DatabaseError.message : DatabaseError → String
  | tableNotFound name => "Table name not found: " ++ name ++ "."
  | tableExists name => "Table " ++ name ++ " already exists."
  | indexExists name => "Index " ++ name ++ " already exists."
  | branchNotFound name => "Branch name not found: " ++ name ++ "."
  | branchExists name => "Branch " ++ name ++ " already exists."
  | tooManyBranches => "No more than " ++ toString maxBranches ++ " branches are supported."
  | table cause => cause.message

def insertByName {α : Type} (name : α → String) (item : α) : List α → List α
  | [] => [item]
  | other :: rest => if name item < name other then item :: other :: rest else other :: insertByName name item rest

namespace Database

def table? (db : Database) (name : String) : Option Table := db.tables.find? fun t => t.name = name

def table (db : Database) (name : String) : Except DatabaseError Table :=
  match db.table? name with
  | some t => .ok t
  | none => .error (.tableNotFound name)

def tableNames (db : Database) : List String := db.tables.map Table.name

def replaceTable (db : Database) (t : Table) : Database :=
  { db with tables := db.tables.map fun other => if other.name = t.name then t else other }

def createTable (db : Database) (name : String) (columns : List (String × ValueType)) :
    Except DatabaseError Database := do
  if (db.table? name).isSome then throw (.tableExists name)
  let t ← (Table.create db.encoding name columns).mapError .table
  return { db with tables := insertByName Table.name t db.tables }

/-- Changes one table, which may put texts into the heap. -/
def updateTable (db : Database) (name : String) (change : Table → TextHeap → Checked TableError (Table × TextHeap)) :
    Checked DatabaseError Database := do
  let t ← (db.table name).mapError .error
  let (t, heap) ← (change t db.heap).mapCause .table
  .ok { db.replaceTable t with heap }

def addRow (db : Database) (name : String) (row : Row) (branch : Nat) : Checked DatabaseError Database :=
  db.updateTable name fun t heap => t.addRow heap row branch

def hideRow (db : Database) (name : String) (tid branch : Nat) : Checked DatabaseError Database :=
  db.updateTable name fun t heap => (·, heap) <$> (t.hideRow tid branch).mapError .error

def copyVisibility (db : Database) (name : String) (parent branch : Nat) : Checked DatabaseError Database :=
  db.updateTable name fun t heap => (·, heap) <$> (t.copyVisibility parent branch).mapError .error

def updateCell (db : Database) (name : String) (tid column : Nat) (value : Datum) : Checked DatabaseError Database :=
  db.updateTable name fun t heap => t.updateCell heap tid column value

def getCell (db : Database) (name : String) (tid column : Nat) : Except DatabaseError Datum := do
  ((← db.table name).getCell db.heap.read tid column).mapError .table

def getRow (db : Database) (name : String) (tid : Nat) : Except DatabaseError Row := do
  ((← db.table name).getRow db.heap.read tid).mapError .table

/-- Adds rows to the master branch until one fails; the ones before it stay. -/
def addRows (db : Database) (name : String) : List Row → Database × Checked DatabaseError Unit
  | [] => (db, .ok ())
  | row :: rows => match db.addRow name row masterBranch with
    | .ok db => db.addRows name rows
    | .error fault => (db, .error fault)

def insertRows (db : Database) (name : String) (rows : List Row) : Database × Checked DatabaseError Unit :=
  match db.table name with
  | .ok _ => db.addRows name rows
  | .error cause => (db, Checked.fail cause)

def index? (db : Database) (name : String) : Option Index := db.indexes.find? fun index => index.name = name

def createIndex (db : Database) (name table column : String) : Except DatabaseError Database := do
  if (db.index? name).isSome then throw (.indexExists name)
  let _ ← ((← db.table table).columnIndex column).mapError .table
  return { db with indexes := insertByName Index.name ⟨name, table, column⟩ db.indexes }

def branchId (db : Database) (name : String) : Except DatabaseError Nat :=
  match db.branches.find? fun branch => branch.name = name with
  | some branch => .ok branch.id
  | none => .error (.branchNotFound name)

def createBranch (db : Database) (name parent : String) : Except DatabaseError (Nat × Database) := do
  if db.branches.any fun branch => branch.name = name then throw (.branchExists name)
  let parent ← db.branchId parent
  let id := db.branches.size
  if maxBranches ≤ id then throw .tooManyBranches
  let tables ← db.tables.mapM fun t => (t.copyVisibility parent id).mapError .table
  return (id, { db with tables, branches := db.branches.push ⟨name, id, some parent⟩ })

def schema (db : Database) : String := String.join (db.tables.map Table.schema)

end Database

end QueryEngine
