import QueryEngine.Code.Function
import QueryEngine.Tuple.Layout

namespace QueryEngine

/-- The functions of a query and what their code names by number or address. -/
structure Program where
  name : String
  encoding : NullEncoding
  functions : Array Function := #[]
  declared : List Routine := []
  literals : TextHeap := { arena := .literal }
  tables : Array String := #[]
  columnLists : Array (List Nat) := #[]
  layouts : Array TupleLayout := #[]

namespace Program

def function? (program : Program) (name : String) : Option Function :=
  program.functions.find? fun f => f.name = name

def declare (program : Program) (routine : Routine) : Program :=
  if routine ∈ program.declared then program else { program with declared := routine :: program.declared }

/-- The number that stands for a table in calls. -/
def tableHandle (program : Program) (table : String) : Nat × Program :=
  match program.tables.findIdx? fun name => name = table with
  | some handle => (handle, program)
  | none => (program.tables.size, { program with tables := program.tables.push table })

/-- The number of a list of columns. Each call makes a new one. -/
def columnList (program : Program) (columns : List Nat) : Nat × Program :=
  (program.columnLists.size, { program with columnLists := program.columnLists.push columns })

/-- The number of the layout of tuples of these types, and the layout. Tuples that lie alike share a number. -/
def tupleLayout (program : Program) (types : List ValueType) : (Nat × TupleLayout) × Program :=
  let layout := TupleLayout.make program.encoding types
  match program.layouts.findIdx? layout.shares with
  | some id => ((id, layout), program)
  | none => ((program.layouts.size, layout), { program with layouts := program.layouts.push layout })

def declarationText (routine : Routine) : String :=
  "declare " ++ Function.resultText routine.result ++ " @" ++ routine.name ++ "(" ++
    Function.paramsText routine.params ++ ")\n"

def text? (program : Program) : Option String := do
  let functions ← program.functions.toList.mapM Function.text?
  let declarations := (Routine.all.filter fun routine => routine ∈ program.declared).map declarationText
  some ("; module " ++ program.name ++ "\n" ++ String.join declarations ++
    String.join (functions.map fun text => "\n" ++ text))

end Program

end QueryEngine
