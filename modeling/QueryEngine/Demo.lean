import QueryEngine.Plan.Sketch
import QueryEngine.Query

namespace QueryEngine.Demo

/-- What the demonstration has printed so far. It stops at the first fault. -/
abbrev Show := EStateM (Fault String) String

def print (text : String) : Show Unit := modify fun shown => shown ++ text

def printLine (text : String) : Show Unit := print (text ++ "\n")

def ofChecked {ε α : Type} (message : ε → String) : Checked ε α → Show α
  | .ok a => pure a
  | .error fault => throw (fault.map message)

def ofExcept {ε α : Type} (message : ε → String) (result : Except ε α) : Show α :=
  ofChecked message (Checked.ofExcept result)

def orTrap {α : Type} (result : Option α) : Show α := ofChecked id (Checked.orTrap result)

def database : Show Database := do
  let db ← ofExcept DatabaseError.message
    (({ encoding := .indicator } : Database).createTable "customers" [("id", .integer), ("name", .varchar 20)])
  let db ← ofExcept DatabaseError.message
    (db.createTable "orders"
      [("id", .integer), ("customer", .integer), ("amount", (ValueType.numeric 10 2).asNullable)])
  let (db, result) := db.insertRows "customers" [[.integer 1, .varchar "ada"], [.integer 2, .varchar "brian"]]
  ofChecked DatabaseError.message result
  let (db, result) := db.insertRows "orders" [
    [.integer 10, .integer 1, .numeric 1250 2], [.integer 11, .integer 1, .numeric 300 2],
    [.integer 12, .integer 2, .null], [.integer 13, .integer 2, .numeric 999 2]]
  ofChecked DatabaseError.message result
  return db

def plan (db : Database) (settings : Settings) (steps : List PlanStep) : Show Planner := do
  let p ← ofExcept PlannerError.message (Planner.start db settings)
  match Planner.steps 0 steps p with
  | .ok p => return p
  | .error (_, fault) => throw (fault.map PlannerError.message)

def compile (p : Planner) (settings : Settings) : Show CompiledQuery :=
  match p.compile settings {} with
  | .ok query _ => return query
  | .error fault _ => throw (fault.map CompileError.message)

def execute (query : CompiledQuery) (db : Database) : Show (Database × Outcome) := do
  let (db, result) := query.execute db
  let outcome ← ofChecked ExecutionError.message result
  if query.settings.echo then print outcome.output
  return (db, outcome)

def totals : List PlanStep := [
  .scan "customers" "c", .scan "orders" "o",
  .join 0 1 (.compare .equal (.column "c.id") (.column "o.customer")) .hash,
  .group 2 [.keep "c.name", .sum "sum" (.column "o.amount"), .count "count"],
  .result 3 ["c.name", "sum", "count"]]

def doubleSmall : List PlanStep := [
  .scan "orders" "o",
  .select 0 (.compare .less (.column "o.amount") (.constant (.numeric 1000 2))),
  .update 1 "o" [("amount", .arithmetic .mul (.column "o.amount") (.constant (.integer 2)))]]

def deleteSecond : List PlanStep := [
  .scan "orders" "o",
  .select 0 (.compare .equal (.column "o.customer") (.constant (.integer 2))),
  .delete 1 "o"]

def allOrders : List PlanStep := [.scan "orders" "o", .result 0 ["o.id", "o.customer", "o.amount"]]

def showTotals (db : Database) (settings : Settings) : Show Database := do
  let p ← plan db settings totals
  match p.plan.explain p.attributes {} with
  | .ok text _ => printLine (← orTrap text)
  | .error cause _ => throw (.error cause.message)
  let (db, outcome) ← execute (← compile p settings) db
  print outcome.output
  return db

def change (db : Database) (settings : Settings) (steps : List PlanStep) : Show Database := do
  let (db, outcome) ← execute (← compile (← plan db settings steps) settings) db
  print outcome.output
  return db

def showOrders (db : Database) (settings : Settings) : Show Database := do
  let settings := { settings with resultMode := .collect }
  let (db, outcome) ← execute (← compile (← plan db settings allOrders) settings) db
  print (← orTrap (Report.text? ["id", "customer", "amount"] outcome.rows.toList true))
  return db

def showTable (db : Database) (name : String) (branch : Nat) : Show Unit := do
  let t ← ofExcept DatabaseError.message (db.table name)
  print (← orTrap (t.report? db.heap.read branch))

def all (env : Settings.Environment) : Show Unit := do
  let db ← database
  let master ← ofExcept SettingsError.message (Settings.ofEnvironment env)
  printLine "Customers:"
  showTable db "customers" master.branch
  printLine "-----"
  let db ← showTotals db master
  printLine "-----"
  let db ← change db master doubleSmall
  let (branch, db) ← ofExcept DatabaseError.message (db.createBranch "dev" "master")
  let dev := { master with branch }
  let db ← change db dev deleteSecond
  printLine "Orders in dev:"
  let db ← showOrders db dev
  printLine "Orders in master:"
  let db ← showOrders db master
  printLine "Orders in dev, as stored:"
  showTable db "orders" dev.branch

def run (env : Settings.Environment) : String × Option (Fault String) :=
  match all env "" with
  | .ok _ shown => (shown, none)
  | .error fault shown => (shown, some fault)

end QueryEngine.Demo
