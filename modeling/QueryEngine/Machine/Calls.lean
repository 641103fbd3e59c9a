import QueryEngine.Machine.Routines

namespace QueryEngine

inductive CallArgument where
  | word (w : Word)
  | result (name : String) (offset : Nat)
  | bytes (bytes : Bytes)
deriving Repr, DecidableEq

/-- A call of a routine, or an access to a word of memory by `read` or `write`. The result may be given a name. -/
structure RoutineCall where
  name : Option String
  routine : String
  args : List CallArgument
deriving Repr, DecidableEq

/-- How a call came out: the word it gave with its type, the live objects, and whether an overflow has been reported. -/
structure CallAnswer where
  value : Option (CodeType × Word)
  live : Nat
  overflow : Bool
deriving Repr, DecidableEq

namespace RoutineCall

abbrev Results := List (String × Word)

def argument (results : Results) : CallArgument → Action Word
  | .word w => return w
  | .result name offset => match results.lookup name with
    | some w => return w + UInt64.ofNat offset
    | none => throw .trap
  | .bytes bytes => do
    let a ← Action.newRegion bytes.length
    modify fun m => m.writeBytes a bytes
    return a

def run (call : RoutineCall) (results : Results) : Action (Option (CodeType × Word)) := do
  let args ← call.args.mapM (argument results)
  match call.routine, args with
  | "write", a :: w :: _ => do
    modify fun m => m.store 8 a w
    return none
  | "read", a :: _ => do return some (.i64, (← get).load 8 a)
  | name, _ => match Routine.named? name with
    | some routine => do
      let w ← routine.run args
      return routine.result.map fun ty => (ty, w)
    | none => throw .trap

/-- Runs calls one after the other, up to the first trap. One that fails gives zero to later ones. -/
def runAll (results : Results) (m : Machine) : List RoutineCall → List (Checked RoutineError CallAnswer) × Machine
  | [] => ([], m)
  | call :: calls =>
    let bind (w : Word) : Results := match call.name with
      | some name => (name, w) :: results
      | none => results
    match call.run results m with
    | .ok value m =>
      let (answers, last) := runAll (bind ((value.map Prod.snd).getD 0)) m calls
      (.ok { value, live := m.liveObjects, overflow := m.outcome.overflow } :: answers, last)
    | .error .trap m => ([.error .trap], m)
    | .error fault m =>
      let (answers, last) := runAll (bind 0) m calls
      (.error fault :: answers, last)

end RoutineCall

end QueryEngine
