import QueryEngine.Proofs.Emission.Looping
import QueryEngine.Proofs.Script.Semantics

namespace QueryEngine

mutual

/-- The names that a statement gives, with those given inside of it. -/
def Statement.names : Statement → List String
  | .const target _ _ | .constBool target _ | .nullPtr target | .param target _ | .binary target _ _ _
  | .overflows target _ _ _ | .compare target _ _ _ | .not target _ | .select target _ _ _ | .cast target _ _ _
  | .resize target _ _ _ | .load target _ _ | .ptrAdd target _ _ | .ptrOffset target _ _ | .stackSlot target _
  | .tableHandle target _ | .tupleLayout target _ | .columnList target _ | .blockNumber target => [target]
  | .store _ _ | .ret _ => []
  | .constBytes address length _ => [address, length]
  | .call target _ _ | .callValue target _ _ => target.toList
  | .ifThenElse _ thenBody _ elseBody _ targets =>
    namesAll thenBody ++ namesAll elseBody ++ targets
  | .ifThen _ body => namesAll body
  | .whileLoop _ carried condBody _ body _ targets =>
    carried ++ namesAll condBody ++ namesAll body ++ targets
  | .forRange _ _ counter body => counter :: namesAll body

def Statement.namesAll : List Statement → List String
  | [] => []
  | statement :: rest => names statement ++ namesAll rest

end

/-- The names whose values a statement without parts uses. -/
def Statement.uses : Statement → List String
  | .binary _ _ lhs rhs | .overflows _ _ lhs rhs | .compare _ _ lhs rhs => [lhs, rhs]
  | .not _ value | .cast _ _ value _ | .resize _ value _ _ => [value]
  | .select _ cond thenValue elseValue => [cond, thenValue, elseValue]
  | .load _ _ address | .ptrOffset _ address _ => [address]
  | .store value address => [value, address]
  | .ptrAdd _ address offset => [address, offset]
  | .call _ _ args | .callValue _ _ args => args
  | _ => []

/-- The names that a statement without parts gives a value. A call gives one if its routine does. -/
def Statement.gives : Statement → List String
  | .call target name _ => if ((Routine.named? name).bind Routine.result).isSome then target.toList else []
  | statement => statement.names

def Script.without (known names : List String) : List String := known.filter fun name => name ∉ names

open Script (without)

mutual

/-- The names that have a value after a statement, if those it uses have one and it does not return. -/
def Statement.scope? (known : List String) : Statement → Option (List String)
  | .ret _ => none
  | .ifThenElse cond thenBody thenValues elseBody elseValues targets => do
    let thenKnown ← scopeAll? known thenBody
    let elseKnown ← scopeAll? (without known (namesAll thenBody)) elseBody
    guard (cond ∈ known ∧ (∀ name ∈ thenValues, name ∈ thenKnown) ∧ ∀ name ∈ elseValues, name ∈ elseKnown)
    some (targets.take (min thenValues.length elseValues.length) ++
      without known (namesAll thenBody ++ namesAll elseBody))
  | .ifThen cond body => do
    let _ ← scopeAll? known body
    guard (cond ∈ known)
    some (without known (namesAll body))
  | .whileLoop init carried condBody cond body next targets => do
    let carried := carried.take init.length
    let condKnown ← scopeAll? (carried ++ known) condBody
    let bodyKnown ← scopeAll? (carried ++ condKnown) body
    guard ((∀ name ∈ init, name ∈ known) ∧ cond ∈ condKnown ∧ ∀ name ∈ next, name ∈ bodyKnown)
    some (targets.take init.length ++ without (carried ++ condKnown) (namesAll body))
  | .forRange start stop counter body => do
    let _ ← scopeAll? (counter :: known) body
    guard (start ∈ known ∧ stop ∈ known)
    some (without (counter :: known) (namesAll body))
  | statement => do
    guard (∀ name ∈ statement.uses, name ∈ known)
    some (statement.gives ++ known)

def Statement.scopeAll? (known : List String) : List Statement → Option (List String)
  | [] => some known
  | statement :: rest => do scopeAll? (← scope? known statement) rest

end

/-- Statements use names only where they have a value, and only the last one returns. -/
def Statement.wellScoped (known : List String) : List Statement → Bool
  | [] => true
  | .ret value :: rest => rest.isEmpty && value.all fun name => name ∈ known
  | statement :: rest =>
    match scope? known statement with
    | some known => wellScoped known rest
    | none => false

def Script.WellScoped (script : Script) : Prop := Statement.wellScoped [] script.body = true

instance (script : Script) : Decidable script.WellScoped := inferInstanceAs (Decidable (_ = true))

end QueryEngine
