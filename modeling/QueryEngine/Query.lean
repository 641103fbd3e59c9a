import QueryEngine.Machine.Execution
import QueryEngine.Physical.Produce
import QueryEngine.Plan.Lowering
import QueryEngine.Plan.Planner

namespace QueryEngine

inductive CompileError where
  | noRoot
  | dependencies (cause : PlanError)
  | lowering (cause : LoweringError)
  | emission (cause : EmitError)
  | code (cause : CodeError)

def CompileError.message : CompileError → String
  | noRoot => "Cannot compile a plan without a root."
  | dependencies cause => cause.message
  | lowering cause => cause.message
  | emission cause => cause.message
  | code cause => cause.message

/-- What was going on when the error arose, where that is told. -/
def CompileError.context : CompileError → Option String
  | dependencies _ => some "IU dependencies of the plan"
  | emission _ => some "emitting code for the plan"
  | noRoot | lowering _ | code _ => none

/-- A query that is ready to run, any number of times. -/
structure CompiledQuery where
  program : Program
  settings : Settings

def queryFunction : String := "query"

abbrev Compile := EStateM (Fault CompileError) SetCache

namespace Compile

def checkDependencies (plan : Plan) : Compile Unit := fun cache =>
  match plan.verify cache with
  | .ok _ cache => .ok () cache
  | .error cause cache => .error (.error (.dependencies cause)) cache

def lower (plan : Plan) (mode : ResultMode) : Compile Physical := fun cache =>
  match plan.lower mode cache with
  | .ok physical cache => .ok physical cache
  | .error fault cache => .error (fault.map .lowering) cache

def emit (encoding : NullEncoding) (physical : Physical) : Checked CompileError Program :=
  match physical.emit (Builder.start { name := queryFunction, encoding } queryFunction [] none) with
  | .error fault _ => .error (fault.map .emission)
  | .ok _ b => (Program.finish b).mapCause .code

end Compile

/-- Checks a plan, chooses its physical operators and emits their code. The query runs in the planner's branch. -/
def Planner.compile (p : Planner) (settings : Settings) : Compile CompiledQuery := do
  if p.plan.root.isNone then throw (.error .noRoot)
  Compile.checkDependencies p.plan
  let physical ← Compile.lower p.plan settings.resultMode
  let program ← MonadExcept.ofExcept (Compile.emit p.database.encoding physical)
  return { program, settings := { settings with branch := p.branch } }

def CompiledQuery.execute (query : CompiledQuery) (db : Database) : Database × Checked ExecutionError Outcome :=
  query.program.execute queryFunction query.settings db

/-- Runs a query and folds the rows it collects, which are not in the outcome then. -/
def CompiledQuery.executeFold {σ : Type} (query : CompiledQuery) (step : σ → Row → σ) (start : σ) (db : Database) :
    Database × Checked ExecutionError (Outcome × σ) :=
  let (db, result) := query.execute db
  (db, do
    let outcome ← result
    return ({ outcome with rows := #[] }, outcome.rows.foldl step start))

end QueryEngine
