import QueryEngine.Report
import QueryEngine.Storage.Cells
import QueryEngine.Storage.Codec

namespace QueryEngine

structure Column where
  name : String
  ty : ValueType
  cells : Cells
deriving Repr

/-- A table in columns. Beside the columns each row has two words: bit `i` of the first says that column `i` is NULL,
bit `b` of the second that branch `b` sees the row. Rows are never removed. -/
structure Table where
  encoding : NullEncoding
  name : String
  columns : Array Column
  nullWords : Growable Word := .empty
  branchWords : Growable Word := .empty

inductive TableError where
  | tooManyColumns (table : String)
  | duplicateColumn (table column : String)
  | unstorableType (table column : String) (ty : ValueType)
  | columnNotFound (table column : String)
  | rowOutOfRange (table : String) (tid rows : Nat)
  | badBranch (branch : Nat)
  | row (cause : RowError)
  | datum (cause : DatumError)
deriving Repr, DecidableEq

def TableError.message : TableError → String
  | tooManyColumns table => "Table " ++ table ++ " has too many columns."
  | duplicateColumn table column => "Table " ++ table ++ " has more than one column named " ++ column ++ "."
  | unstorableType table column ty =>
    "Column " ++ column ++ " of table " ++ table ++ " cannot hold values of type " ++ ty.text ++ "."
  | columnNotFound table column => "Column " ++ column ++ " not found in table " ++ table ++ "."
  | rowOutOfRange table tid rows =>
    "Row " ++ toString tid ++ " is out of range for table " ++ table ++ " with " ++ toString rows ++ " rows."
  | badBranch branch => "Branch " ++ toString branch ++ " does not exist."
  | row cause => cause.message
  | datum cause => cause.message

/-- One bit of the null word for each column. -/
def maxColumns : Nat := 64

/-- One bit of the branch word for each branch. -/
def maxBranches : Nat := 64

def masterBranch : Nat := 0

/-- Most rows of one table: a cell has at most 16 bytes. -/
def maxRows : Nat := 1 <<< 34

namespace Word

def bit (i : Nat) : Word := 1 <<< UInt64.ofNat i

def hasBit (w : Word) (i : Nat) : Bool := w &&& bit i ≠ 0

def setBit (w : Word) (i : Nat) : Word := w ||| bit i

def clearBit (w : Word) (i : Nat) : Word := w &&& ~~~(bit i)

end Word

namespace Table

def checkColumns (table : String) : (seen : List String) → List (String × ValueType) → Except TableError Unit
  | _, [] => .ok ()
  | seen, (column, ty) :: rest =>
    if column ∈ seen then .error (.duplicateColumn table column)
    else if ty.isUnknown then .error (.unstorableType table column ty)
    else checkColumns table (column :: seen) rest

def create (encoding : NullEncoding) (name : String) (columns : List (String × ValueType)) :
    Except TableError Table := do
  if maxColumns < columns.length then throw (.tooManyColumns name)
  checkColumns name [] columns
  return {
    encoding
    name
    columns := (columns.map fun column =>
      { name := column.1, ty := column.2, cells := { cellSize := column.2.size } }).toArray }

def rowCount (t : Table) : Nat := t.branchWords.size

def columnNames (t : Table) : List String := t.columns.toList.map Column.name

def columnTypes (t : Table) : List ValueType := t.columns.toList.map Column.ty

def columnIndex (t : Table) (column : String) : Except TableError Nat :=
  match t.columns.findIdx? fun c => c.name = column with
  | some i => .ok i
  | none => .error (.columnNotFound t.name column)

def columnType? (t : Table) (column : Nat) : Option ValueType := t.columns[column]?.map Column.ty

/-- Encodes the values of a coerced row, column by column. The second result has a bit for each NULL. -/
def encodeRow (encoding : NullEncoding) :
    (column : Nat) → List ValueType → Row → TextHeap → Checked DatumError (List Bytes × Word × TextHeap)
  | column, ty :: types, d :: row, heap => do
    let (cell, heap) ← Codec.encode encoding d ty heap
    let (cells, nulls, heap) ← encodeRow encoding (column + 1) types row heap
    .ok (cell :: cells, if d.isNull then nulls.setBit column else nulls, heap)
  | _, _, _, heap => .ok ([], 0, heap)

def pushCells (columns : Array Column) (cells : List Bytes) : Array Column :=
  (columns.toList.zipWith (fun column cell => { column with cells := column.cells.push cell }) cells).toArray

/-- Appends a row that only `branch` sees. -/
def addRow (t : Table) (heap : TextHeap) (values : Row) (branch : Nat) : Checked TableError (Table × TextHeap) := do
  if maxBranches ≤ branch then Checked.fail (.badBranch branch)
  if maxRows ≤ t.rowCount then Checked.trap
  let row ← (Row.coerce t.columnTypes values).mapCause .row
  let (cells, nulls, heap) ← (encodeRow t.encoding 0 t.columnTypes row heap).mapCause .datum
  .ok ({ t with
    columns := pushCells t.columns cells
    nullWords := t.nullWords.push nulls
    branchWords := t.branchWords.push (Word.bit branch) }, heap)

def checkRow (t : Table) (tid : Nat) : Except TableError Unit :=
  if tid < t.rowCount then .ok () else .error (.rowOutOfRange t.name tid t.rowCount)

def branchWord (t : Table) (tid : Nat) : Word := (t.branchWords.get? tid).getD 0

def nullWord (t : Table) (tid : Nat) : Word := (t.nullWords.get? tid).getD 0

def isVisible (t : Table) (tid branch : Nat) : Bool :=
  tid < t.rowCount && branch < maxBranches && (t.branchWord tid).hasBit branch

def hideRow (t : Table) (tid branch : Nat) : Except TableError Table := do
  t.checkRow tid
  if maxBranches ≤ branch then throw (.badBranch branch)
  return { t with branchWords := t.branchWords.set tid ((t.branchWord tid).clearBit branch) }

def copyVisibility (t : Table) (parent branch : Nat) : Except TableError Table := do
  if maxBranches ≤ parent ∨ maxBranches ≤ branch then throw (.badBranch (max parent branch))
  return { t with branchWords := t.branchWords.map fun w => if w.hasBit parent then w.setBit branch else w }

def numberedColumn (t : Table) (column : Nat) : Except TableError Column :=
  match t.columns[column]? with
  | some c => .ok c
  | none => .error (.columnNotFound t.name ("#" ++ toString column))

def updateCell (t : Table) (heap : TextHeap) (tid column : Nat) (value : Datum) :
    Checked TableError (Table × TextHeap) := do
  (t.checkRow tid).mapError .error
  let c ← (t.numberedColumn column).mapError .error
  let value ← (value.coerce c.ty).mapCause .datum
  let (cell, heap) ← (Codec.encode t.encoding value c.ty heap).mapCause .datum
  let nulls := t.nullWord tid
  .ok ({ t with
    columns := t.columns.setIfInBounds column { c with cells := c.cells.set tid cell }
    nullWords := t.nullWords.set tid
      (if value.isNull then nulls.setBit column else nulls.clearBit column) }, heap)

def getCell (t : Table) (read : MemoryReader) (tid column : Nat) : Except TableError Datum := do
  t.checkRow tid
  let c ← t.numberedColumn column
  if (t.nullWord tid).hasBit column then return .null
  return Codec.decode t.encoding read c.ty ((c.cells.get? tid).getD [])

def getRow (t : Table) (read : MemoryReader) (tid : Nat) : Except TableError Row :=
  (List.range t.columns.size).mapM (t.getCell read tid)

def visibleRows (t : Table) (read : MemoryReader) (branch : Nat) : List Row :=
  (List.range t.rowCount).filterMap fun tid =>
    if t.isVisible tid branch then (t.getRow read tid).toOption else none

def branchesOf (t : Table) (tid : Nat) : List Nat := (List.range maxBranches).filter (t.isVisible tid)

def report? (t : Table) (read : MemoryReader) (branch : Nat) : Option String :=
  Report.text? t.columnNames (t.visibleRows read branch) true

def schema (t : Table) : String :=
  let columns := (t.columns.toList.map fun c => c.name ++ " " ++ c.ty.text)
  "CREATE TABLE " ++ t.name ++ " (" ++ String.intercalate ", " columns ++ ");\n"

end Table

end QueryEngine
