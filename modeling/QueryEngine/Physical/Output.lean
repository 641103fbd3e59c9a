import QueryEngine.Physical.Basic

namespace QueryEngine.Emit

def printChar (c : Char) : Emit Unit := do
  let c ← const .i8 c.toNat
  callEffect .printChar [c]

def printValues : List Held → Emit Unit
  | [] => return
  | [value] => value.print
  | value :: rest => do
    value.print
    printChar '\t'
    printValues rest

def printRow (selection : List Attribute) (counter : Reg) : Sink := fun row => do
  printValues (← row.values selection)
  printChar '\n'
  increment counter

def printRows (child : Sink → Emit Unit) (selection : List Attribute) : Emit Unit := do
  let counter ← newCounter
  child (printRow selection counter)
  let n ← load .i64 counter
  let zero ← const .i64 0
  let empty ← compare .eq n zero
  discard (ifThenElse empty (do printFormatted "Empty result set\n" n; return [])
    (do printFormatted "%ld tuples\n" n; return []))

def collectRow (selection : List Attribute) : Sink := fun row => do
  let (id, layout) ← tupleLayout (selection.map Attribute.ty)
  let slot ← tupleSlot layout
  let values ← row.values selection
  Held.storeTuple layout slot values
  let id ← number id
  callEffect .resultRow [id, slot]

def insertRow (table : String) (types : List ValueType) (values : List Scalar) : Emit Unit := do
  let row ← values.mapM (Scalar.emit [])
  let (id, layout) ← tupleLayout types
  let slot ← tupleSlot layout
  Held.storeTuple layout slot row
  let handle ← tableHandle table
  let id ← number id
  callEffect .tableInsert [handle, id, slot]
  let one ← const .i64 1
  printFormatted "%ld rows inserted\n" one

def rowIdOf (row : HeldRow) (a : Attribute) : Emit Reg := do
  match ← row.value a with
  | .present value => do resize (← orTrap value.regs.head?) .i64 false
  | value => fail (.flow (.rowId value.ty))

def updateRow (table : String) (rowId : Attribute) (assignments : List Assignment) (counter : Reg) :
    Sink := fun row => do
  let tid ← rowIdOf row rowId
  let values ← assignments.mapM fun assignment => assignment.value.emit row
  let (id, layout) ← tupleLayout (assignments.map Assignment.ty)
  let slot ← tupleSlot layout
  Held.storeTuple layout slot values
  let columns ← inProgram fun program => program.columnList (assignments.map Assignment.column)
  let handle ← tableHandle table
  let columns ← number columns
  let id ← number id
  callEffect .tableUpdate [handle, columns, id, tid, slot]
  increment counter

def deleteRow (table : String) (rowId : Attribute) (counter : Reg) : Sink := fun row => do
  let tid ← rowIdOf row rowId
  let handle ← tableHandle table
  callEffect .tableDelete [handle, tid]
  increment counter

def countedRows (child : Sink → Emit Unit) (change : Reg → Sink) (format : String) : Emit Unit := do
  let counter ← newCounter
  child (change counter)
  let n ← load .i64 counter
  printFormatted format n

end QueryEngine.Emit
