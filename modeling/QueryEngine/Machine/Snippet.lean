import QueryEngine.Machine.Run
import QueryEngine.Register.Evaluation

namespace QueryEngine

inductive SnippetError where
  | emit (cause : EmitError)
  | run (cause : RunError)
deriving Repr, DecidableEq

def SnippetError.message : SnippetError → String
  | emit cause => cause.message
  | run cause => cause.message

namespace Snippet

variable {α : Type}

/-- Code that is run by itself, in an empty database. The code gives the register that is returned. -/
def run (encoding : NullEncoding) (result : CodeType) (code : Emit (α × Reg)) :
    Checked SnippetError (α × Word × Outcome) :=
  let program : Program := { name := "snippet", encoding }
  match code (Builder.start program "snippet" [] (some result)) with
  | .error fault _ => .error (fault.map .emit)
  | .ok (a, r) b => do
    let program ← (Program.finish (b.terminate (.ret (some r)))).mapCause fun cause => .emit (.code cause)
    match Run.function "snippet" [] (Machine.start program { encoding } {}) with
    | .ok w m => .ok (a, w.getD 0, m.outcome)
    | .error fault _ => .error (fault.map .run)

/-- Prints a value. Gives its type and, as a single bit, whether it is NULL. -/
def shown (code : Emit Held) : Emit (ValueType × Reg) := do
  let value ← code
  value.print
  return (value.ty, ← value.isNull)

def constants : List (Attribute × Datum) → Emit HeldRow
  | [] => return []
  | (a, d) :: rest => do
    let value ← Held.constant d a.ty
    return (a, value) :: (← constants rest)

def evaluate (row : List (Attribute × Datum)) (e : Scalar) : Emit Held := do e.emit (← constants row)

/-- Stores a value as one of type `ty` in the frame, with an indicator byte if `flagged`, and loads it again. -/
def throughMemory (ty : ValueType) (flagged : Bool) (value : Held) : Emit Held := do
  let slot ← Emit.stackSlot 32
  let place ← if flagged then some <$> Emit.ptrOffset slot 24 else pure none
  value.store ty slot place
  let indicator ← place.mapM fun place => Emit.load .i8 place
  Held.load ty slot indicator

def constantTuple (types : List ValueType) (values : Row) : Emit (List Held) :=
  (values.zip types).mapM fun (d, ty) => Held.constant d ty

/-- Stores values as a tuple of the given types in the frame. Gives the tuple and what is loaded from it. -/
def tupleThroughMemory (types : List ValueType) (values : List Held) : Emit (Reg × List Held) := do
  let (_, layout) ← Emit.inProgram fun program => program.tupleLayout types
  let slot ← Emit.stackSlot layout.size
  Held.storeTuple layout slot values
  return (slot, ← Held.loadTuple layout slot)

def printEach : List Held → Emit Unit
  | [] => return
  | value :: values => do
    value.print
    let bar ← Emit.const .i8 '|'.toNat
    Emit.callEffect .printChar [bar]
    printEach values

/-- Prints the values of a tuple that has been stored and loaded, and hands it to the caller as a row. -/
def showTuple (types : List ValueType) (values : List Held) : Emit Reg := do
  let (slot, loaded) ← tupleThroughMemory types values
  printEach loaded
  let (id, _) ← Emit.inProgram fun program => program.tupleLayout types
  let id ← Emit.const .i64 id
  Emit.callEffect .resultRow [id, slot]
  return id

end Snippet

end QueryEngine
