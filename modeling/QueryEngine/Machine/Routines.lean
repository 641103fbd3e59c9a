import QueryEngine.Hash
import QueryEngine.Machine.Nodes

namespace QueryEngine

/-- Writes the number in the place of the first conversion for an integer; two percent signs stand for one. -/
def fillFormat (value : Word) (used : Bool) : List Char → List Char
  | [] => []
  | '%' :: '%' :: rest => '%' :: fillFormat value used rest
  | '%' :: rest => conversion rest
  | c :: rest => c :: fillFormat value used rest
where
  conversion : List Char → List Char
    | 'l' :: rest => conversion rest
    | [] => ['%']
    | c :: rest =>
      if !used && (c = 'd' || c = 'i') then value.signedText.toList ++ fillFormat value true rest
      else if !used && c = 'u' then (toString value.toNat).toList ++ fillFormat value true rest
      else '%' :: c :: fillFormat value used rest

namespace Action

def poolCreate : Action Word := do
  let memory ← newPool (← get).settings.poolBlock
  adopt (.pool memory)

def poolTake (args : List Word) : Action Word := do
  let a ← argument args 0
  let memory ← pool a
  let (taken, memory) ← takeFrom memory (← argument args 1).toNat
  remove a
  place a (.pool memory)
  return taken

/-- Any object can be freed as a pool. -/
def poolFree (args : List Word) : Action Word := do
  let a ← argument args 0
  let _ ← object a
  remove a
  return 0

def chainCreate : Action Word := do
  let buckets := powerOfTwoAbove (max 1 (← get).settings.buckets)
  if largestBucketCount < buckets then trap
  let memory ← newPool Pool.defaultBlock
  adopt (.chainTable { buckets := Array.replicate buckets 0, memory })

def chainInsert (args : List Word) : Action Word := do
  let a ← argument args 0
  let table ← chainTable a
  let hash ← argument args 1
  let size ← argument args 2
  remove a
  let (node, table) ← table.insert hash size
  place a (.chainTable table)
  return payloadOf node

def chainLookup (args : List Word) : Action Word := do
  let table ← chainTable (← argument args 0)
  lookup table.buckets (← argument args 1)

/-- Nothing follows the null address. -/
def afterNode (node : Word) (following : Action Word) : Action Word := if node = 0 then return 0 else following

def chainNextSameHash (args : List Word) : Action Word := do
  let _ ← chainTable (← argument args 0)
  let node ← argument args 1
  afterNode node do nextSameHash node (← argument args 2)

def chainFirst (args : List Word) : Action Word := do
  return (← chainTable (← argument args 0)).firstFrom 0

def chainNext (args : List Word) : Action Word := do
  let table ← chainTable (← argument args 0)
  let node ← argument args 1
  afterNode node (table.next node)

def chainFree (args : List Word) : Action Word := do
  let a ← argument args 0
  let _ ← chainTable a
  remove a
  return 0

def listCreate : Action Word := do
  let memory ← newPool (← get).settings.poolBlock
  adopt (.joinList { memory })

def listAppend (args : List Word) : Action Word := do
  let a ← argument args 0
  let list ← joinList a
  let hash ← argument args 1
  let size ← argument args 2
  remove a
  let (node, list) ← list.append hash size
  place a (.joinList list)
  return payloadOf node

/-- The list is gone once the table is built. -/
def joinBuild (args : List Word) : Action Word := do
  let a ← argument args 0
  let list ← joinList a
  remove a
  adopt (.joinTable (← list.build))

def joinLookup (args : List Word) : Action Word := do
  let buckets ← joinTable (← argument args 0)
  lookup buckets (← argument args 1)

def joinNextSameHash (args : List Word) : Action Word := do
  let _ ← joinTable (← argument args 0)
  let node ← argument args 1
  afterNode node do nextSameHash node (← argument args 2)

def joinFree (args : List Word) : Action Word := do
  let a ← argument args 0
  let _ ← joinTable a
  remove a
  return 0

/-- The text at the address that is one argument, of the length that is the next. -/
def textArgument (args : List Word) (i : Nat) : Action String := do
  let a ← argument args i
  let len ← argument args (i + 1)
  return (← get).readText a len.toNat

def printFormatted (args : List Word) : Action Word := do
  let format ← textArgument args 0
  let text := String.ofList (fillFormat (← argument args 2) false format.toList)
  let _ ← print text
  return UInt64.ofNat (byteLength text)

def printChar (args : List Word) : Action Word := do
  print (String.singleton (Char.ofNat (← argument args 0).toUInt8.toNat))

def printDatum (d : Datum) : Action Word := do print (← orTrap d.text?)

def printBool (args : List Word) : Action Word := do printDatum (.bool ((← argument args 0).toUInt8 ≠ 0))

def printInteger (args : List Word) : Action Word := do printDatum (.integer (← argument args 0).toUInt32.toInt32)

def printNumeric (args : List Word) : Action Word := do
  let raw ← argument args 0
  printDatum (.numeric raw.toInt64 (← argument args 1).toUInt8)

def printString (args : List Word) : Action Word := do print (← textArgument args 0)

def printDate (args : List Word) : Action Word := do printDatum (.date (← argument args 0).toUInt32.toInt32)

def printTimestamp (args : List Word) : Action Word := do printDatum (.timestamp (← argument args 0).toInt64)

def bytesOrder : Bytes → Bytes → Ordering
  | [], [] => .eq
  | [], _ :: _ => .lt
  | _ :: _, [] => .gt
  | a :: first, b :: second => if a < b then .lt else if b < a then .gt else bytesOrder first second

def compareBytes (args : List Word) : Action Word := do
  let first ← argument args 0
  let second ← argument args 1
  let count := (← argument args 2).toNat
  let m ← get
  match bytesOrder (m.readBytes first count) (m.readBytes second count) with
  | .lt => return Word.ofInt (-1)
  | .eq => return 0
  | .gt => return 1

def hashBytes (args : List Word) : Action Word := do
  let a ← argument args 0
  let len ← argument args 1
  return Hash.ofBytes ((← get).readBytes a len.toNat)

def largestBuffer : Nat := 1 <<< 63 - 1

def allocate (args : List Word) : Action Word := do
  let size := (← argument args 0).toNat
  if sizeLimit ≤ size + 7 ∨ largestBuffer < (size + 7) / 8 * 8 then trap
  adopt .buffer size

def release (args : List Word) : Action Word := do
  let a ← argument args 0
  match ← object a with
  | .buffer => do
    remove a
    return 0
  | _ => fail (.wrongObject a .buffer)

def report (message : String) : Action Word := do
  modify fun m => { m with outcome.diagnostics := m.outcome.diagnostics.push message }
  return 0

def reportOverflow (args : List Word) : Action Word := do
  let message ← textArgument args 0
  modify fun m => { m with outcome.overflow := true }
  report message

def reportDivisionByZero (args : List Word) : Action Word := do report (← textArgument args 0)

def tableName (handle : Word) : Action String := do
  orFail (.unknownTable handle) (← get).program.tables[handle.toNat]?

def table (handle : Word) : Action Table := do
  let name ← tableName handle
  ofChecked (((← get).database.table name).mapError .error)

def decodeTuple (layout a : Word) : Action Row := do
  let m ← get
  let layout ← orFail (.unknownLayout layout) m.program.layouts[layout.toNat]?
  return layout.decode m.encoding m.readBytes a

def resultRow (args : List Word) : Action Word := do
  let row ← decodeTuple (← argument args 0) (← argument args 1)
  modify fun m => { m with outcome.rows := m.outcome.rows.push row }
  return 0

def tableRowCount (args : List Word) : Action Word := do
  return UInt64.ofNat (← table (← argument args 0)).rowCount

def partAddress (handle : Word) (part : TablePart) : Action Word :=
  return regionAddress .column (part.region handle.toNat)

def tableColumn (args : List Word) : Action Word := do
  let handle ← argument args 0
  let t ← table handle
  let column ← argument args 1
  if t.columns.size ≤ column.toNat then fail (.unknownColumn t.name column)
  partAddress handle (.cells column.toNat)

def tableWords (part : TablePart) (args : List Word) : Action Word := do
  let handle ← argument args 0
  let _ ← table handle
  partAddress handle part

def tableNulls : List Word → Action Word := tableWords .nulls

def tableBranches : List Word → Action Word := tableWords .branches

def tableInsert (args : List Word) : Action Word := do
  let name ← tableName (← argument args 0)
  let row ← decodeTuple (← argument args 1) (← argument args 2)
  modify fun m => { m with pending := m.pending.push (name, row) }
  return 0

def updateCells (table : String) (tid : Nat) : List Nat → Row → Action Unit
  | column :: columns, value :: row => do
    let database ← ofChecked ((← get).database.updateCell table tid column value)
    modify fun m => { m with database }
    updateCells table tid columns row
  | _, _ => return

def tableUpdate (args : List Word) : Action Word := do
  let name ← tableName (← argument args 0)
  let list ← argument args 1
  let columns ← orFail (.unknownColumnList list) (← get).program.columnLists[list.toNat]?
  let row ← decodeTuple (← argument args 2) (← argument args 4)
  let _ ← table (← argument args 0)
  updateCells name (← argument args 3).toNat columns row
  return 0

def tableDelete (args : List Word) : Action Word := do
  let name ← tableName (← argument args 0)
  let _ ← table (← argument args 0)
  let m ← get
  let database ← ofChecked (m.database.hideRow name (← argument args 1).toNat m.settings.branch)
  set { m with database }
  return 0

end Action

namespace Routine

/-- What a call of the routine does, and the word it gives. Routines without a result give zero. -/
def run (routine : Routine) (args : List Word) : Action Word :=
  match routine with
  | poolCreate => Action.poolCreate
  | poolTake => Action.poolTake args
  | poolFree => Action.poolFree args
  | chainCreate => Action.chainCreate
  | chainInsert => Action.chainInsert args
  | chainLookup => Action.chainLookup args
  | chainNextSameHash => Action.chainNextSameHash args
  | chainFirst => Action.chainFirst args
  | chainNext => Action.chainNext args
  | chainFree => Action.chainFree args
  | listCreate => Action.listCreate
  | listAppend => Action.listAppend args
  | joinBuild => Action.joinBuild args
  | joinLookup => Action.joinLookup args
  | joinNextSameHash => Action.joinNextSameHash args
  | joinFree => Action.joinFree args
  | printFormatted => Action.printFormatted args
  | printChar => Action.printChar args
  | printBool => Action.printBool args
  | printInteger => Action.printInteger args
  | printNumeric => Action.printNumeric args
  | printString => Action.printString args
  | printDate => Action.printDate args
  | printTimestamp => Action.printTimestamp args
  | printNull => Action.printDatum .null
  | compareBytes => Action.compareBytes args
  | hashBytes => Action.hashBytes args
  | allocate => Action.allocate args
  | release => Action.release args
  | reportOverflow => Action.reportOverflow args
  | reportDivisionByZero => Action.reportDivisionByZero args
  | resultRow => Action.resultRow args
  | tableRowCount => Action.tableRowCount args
  | tableColumn => Action.tableColumn args
  | tableNulls => Action.tableNulls args
  | tableBranches => Action.tableBranches args
  | tableInsert => Action.tableInsert args
  | tableUpdate => Action.tableUpdate args
  | tableDelete => Action.tableDelete args

end Routine

namespace Machine

def addPending (branch : Nat) : List (String × Row) → Database → Database × Checked DatabaseError Unit
  | [], db => (db, .ok ())
  | (name, row) :: rest, db => match db.addRow name row branch with
    | .ok db => addPending branch rest db
    | .error fault => (db, .error fault)

/-- Adds the rows that wait for the end of the run. When one cannot be added, the ones before it stay. -/
def finish (m : Machine) : Database × Checked RoutineError Outcome :=
  match addPending m.settings.branch m.pending.toList m.database with
  | (db, .ok _) => (db, .ok m.outcome)
  | (db, .error fault) => (db, .error (fault.map .database))

end Machine

end QueryEngine
