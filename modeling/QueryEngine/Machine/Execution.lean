import QueryEngine.Machine.Run

namespace QueryEngine

inductive ExecutionError where
  | run (cause : RunError)
  | finish (cause : RoutineError)
deriving Repr, DecidableEq

def ExecutionError.message : ExecutionError → String
  | run cause => cause.message
  | finish cause => cause.message

namespace Program

/-- Runs a function without parameters on a database, if it enters at most `limit` blocks. Gives the database after the
run, which has all changes that came before a failure. -/
def executeWithin (limit : Nat) (program : Program) (name : String) (settings : Settings) (db : Database) :
    Database × Checked ExecutionError Outcome :=
  match Run.functionWithin Routine.run limit name [] (Machine.start program db settings) with
  | .error fault m => (m.database, .error (fault.map .run))
  | .ok _ m =>
    let (db, outcome) := m.finish
    (db, outcome.mapCause .finish)

def execute (program : Program) (name : String) (settings : Settings) (db : Database) :
    Database × Checked ExecutionError Outcome :=
  executeWithin Run.blockLimit program name settings db

end Program

end QueryEngine
