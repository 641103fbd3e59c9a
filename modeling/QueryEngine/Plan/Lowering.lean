import QueryEngine.Physical.Basic
import QueryEngine.Plan.Sets
import QueryEngine.Settings

namespace QueryEngine

inductive LoweringError where
  | plan (cause : PlanError)
  | unsupportedJoin (method : JoinMethod)
  | notEquiJoin (predicate : String)

def LoweringError.message : LoweringError → String
  | plan cause => cause.message
  | unsupportedJoin method => "Join method " ++ method.text ++ " is not implemented."
  | notEquiJoin predicate =>
    "Cannot hash join on " ++ predicate ++ ": not a conjunction of equalities between the two inputs."

abbrev Lowering := EStateM (Fault LoweringError) SetCache

namespace Lowering

def ask {α : Type} (question : Sets α) : Lowering α := fun cache =>
  match question cache with
  | .ok a cache => .ok a cache
  | .error cause cache => .error (.error (.plan cause)) cache

def failJoin {α : Type} (predicate : Scalar) : Lowering α :=
  match predicate.text? with
  | some text => throw (.error (.notEquiJoin text))
  | none => throw .trap

/-- An equality with the side that the left input can evaluate first. -/
def orient? (left right : AttributeSet) (pair : Scalar × Scalar) : Option (Scalar × Scalar) :=
  let (a, b) := pair
  if a.attributes.isSubset left && b.attributes.isSubset right then some (a, b)
  else if b.attributes.isSubset left && a.attributes.isSubset right then some (b, a)
  else none

/-- The keys of a join: its predicate is a conjunction of equalities, each between the two inputs. -/
def joinKeys (plan : Plan) (left right : Nat) (predicate : Scalar) : Lowering (List (Scalar × Scalar)) := do
  match predicate.equalityPairs? with
  | none => failJoin predicate
  | some pairs =>
    let first ← ask (plan.produced left)
    let second ← ask (plan.produced right)
    match pairs.mapM (orient? first second) with
    | some keys => return keys
    | none => failJoin predicate

/-- The physical operators for `id` and all below it. A scan reads only the columns that are required, and a join hands
on only the attributes of its left input that are expected of it. -/
def below (plan : Plan) (mode : ResultMode) : (limit id : Nat) → Lowering Physical
  | 0, id => throw (.error (.plan (.unknownOperator id)))
  | limit + 1, id => do
    match ← ask (MonadExcept.ofExcept (plan.operator id)) with
    | .scan source => do
      let required ← ask (plan.required id)
      let rowId := if required.contains source.rowId then some source.rowId else none
      return .scan source.table (source.columns.filter fun column => required.contains column.2) rowId source.branch
    | .select child predicate => do return .select (← below plan mode limit child) predicate
    | .map child mappings => do return .map (← below plan mode limit child) mappings
    | .join left right predicate method => do
      if method ≠ .hash then throw (.error (.unsupportedJoin method))
      let keys ← joinKeys plan left right predicate
      let produced ← ask (plan.produced left)
      let carried := (← ask (plan.expected id)).inter produced
      let first ← below plan mode limit left
      let second ← below plan mode limit right
      return .join first second keys carried.items
    | .group child aggregates => do return .group (← below plan mode limit child) aggregates
    | .insert table types values _ => return .insert table types values
    | .update child table rowId assignments _ => do
      return .update (← below plan mode limit child) table rowId assignments
    | .delete child table rowId _ => do return .delete (← below plan mode limit child) table rowId
    | .result child selection => do
      let child ← below plan mode limit child
      return match mode with
        | .print => .print child selection
        | .collect => .collect child selection

end Lowering

def Plan.lower (plan : Plan) (mode : ResultMode) : Lowering Physical :=
  match plan.root with
  | none => throw (.error (.plan .noRoot))
  | some root => Lowering.below plan mode plan.size root

end QueryEngine
