import QueryEngine.Plan.Basic

namespace QueryEngine

/-- The sets of a plan that have been computed so far, by operator, and how many there are. -/
structure SetCache where
  produced : List (Nat × AttributeSet) := []
  required : List (Nat × AttributeSet) := []
  computed : Nat := 0
deriving Repr, DecidableEq

/-- Questions about the sets of a plan. Each set is computed once. -/
abbrev Sets := EStateM PlanError SetCache

namespace Sets

def keepProduced (id : Nat) (set : AttributeSet) : Sets AttributeSet := do
  modify fun cache => { cache with produced := (id, set) :: cache.produced, computed := cache.computed + 1 }
  return set

def keepRequired (id : Nat) (set : AttributeSet) : Sets AttributeSet := do
  modify fun cache => { cache with required := (id, set) :: cache.required, computed := cache.computed + 1 }
  return set

end Sets

namespace Plan

open Sets

def producedWithin (plan : Plan) : (limit id : Nat) → Sets AttributeSet
  | 0, id => throw (.unknownOperator id)
  | limit + 1, id => do
    let node ← ofExcept (plan.node id)
    match (← get).produced.lookup id with
    | some set => return set
    | none => match node.op with
      | .scan source => keepProduced id (AttributeSet.ofList (source.columns.map Prod.snd ++ [source.rowId]))
      | .select child _ => do
        let set ← plan.producedWithin limit child
        keepProduced id set
      | .map child mappings => do
        let set ← plan.producedWithin limit child
        keepProduced id (set.union (AttributeSet.ofList (mappings.map Mapping.result)))
      | .join left right _ _ => do
        let first ← plan.producedWithin limit left
        let second ← plan.producedWithin limit right
        keepProduced id (first.union second)
      | .group _ aggregates => keepProduced id (AttributeSet.ofList (aggregates.map Aggregate.result))
      | .insert .. | .update .. | .delete .. | .result .. => keepProduced id .empty

def produced (plan : Plan) (id : Nat) : Sets AttributeSet := plan.producedWithin plan.size id

/-- What an operator needs from below when its parent expects `expected` of it. -/
def requiredFrom (plan : Plan) (id : Nat) (op : Operator) (expected : Sets AttributeSet) : Sets AttributeSet :=
  match op with
  | .scan _ => do
    let produced ← plan.produced id
    return (← expected).inter produced
  | .select .. | .join .. => do return (← expected).union (AttributeSet.ofList op.reads)
  | .map _ mappings => do
    let set := (← expected).diff (AttributeSet.ofList (mappings.map Mapping.result))
    return set.union (AttributeSet.ofList op.reads)
  | .group .. | .insert .. | .update .. | .delete .. | .result .. => return AttributeSet.ofList op.reads

/-- What is expected of the input `id` of the operator `parent`, which requires `required`. An input of a join delivers
the part that it produces. -/
def expectedUnder (plan : Plan) (id parent : Nat) (required : AttributeSet) : Sets AttributeSet := do
  match (← ofExcept (plan.node parent)).op with
  | .join .. => return required.inter (← plan.produced id)
  | _ => return required

def requiredWithin (plan : Plan) : (limit id : Nat) → Sets AttributeSet
  | 0, id => throw (.unknownOperator id)
  | limit + 1, id => do
    let node ← ofExcept (plan.node id)
    match (← get).required.lookup id with
    | some set => return set
    | none =>
      let expected : Sets AttributeSet := match node.parent with
        | none => return .empty
        | some parent => do plan.expectedUnder id parent (← plan.requiredWithin limit parent)
      let set ← plan.requiredFrom id node.op expected
      keepRequired id set

def required (plan : Plan) (id : Nat) : Sets AttributeSet := plan.requiredWithin plan.size id

def expected (plan : Plan) (id : Nat) : Sets AttributeSet := do
  match (← ofExcept (plan.node id)).parent with
  | none => return .empty
  | some parent => plan.expectedUnder id parent (← plan.required parent)

def producedByAll (plan : Plan) : List Nat → AttributeSet → Sets AttributeSet
  | [], set => return set
  | id :: ids, set => do plan.producedByAll ids (set.union (← plan.produced id))

def verifyBelow (plan : Plan) : (limit id : Nat) → Sets Unit
  | 0, id => throw (.unknownOperator id)
  | limit + 1, id => do
    let op ← ofExcept (plan.operator id)
    if op.children.isEmpty then return
    let available ← plan.producedByAll op.children .empty
    let missing := (← plan.required id).diff available
    if !missing.isEmpty then throw (.unsatisfied op.name id missing)
    op.children.forM (plan.verifyBelow limit)

/-- Checks from the root down that the inputs of every operator produce what it requires. -/
def verify (plan : Plan) : Sets Unit :=
  match plan.root with
  | none => throw .noRoot
  | some root => plan.verifyBelow plan.size root

/-- One line for each operator below `id`, as deep as the operator is; none if a literal has no text. -/
def explainBelow (plan : Plan) (attributes : Attributes) : (limit id depth : Nat) → Sets (Option String)
  | 0, _, _ => return some ""
  | limit + 1, id, depth => do
    match plan.operator id with
    | .error _ => return some ""
    | .ok op =>
      let produced ← plan.produced id
      let names := String.intercalate ", " (produced.items.map attributes.describe)
      let indent := String.join (List.replicate depth "  ")
      let below ← op.children.mapM fun child => plan.explainBelow attributes limit child (depth + 1)
      return do
        let line := indent ++ (← op.text?) ++ " -> [" ++ names ++ "]\n"
        some (line ++ String.join (← below.mapM fun text => text))

def explain (plan : Plan) (attributes : Attributes) : Sets (Option String) :=
  match plan.root with
  | none => return some ""
  | some root => plan.explainBelow attributes plan.size root 0

end Plan

end QueryEngine
