import QueryEngine.Physical.Group
import QueryEngine.Physical.Join
import QueryEngine.Physical.Output
import QueryEngine.Physical.Rows

namespace QueryEngine.Physical

open Emit

/-- Code that makes the rows of a tree flow into `next`. A row is never kept between two operators: the code for it
stands inside the loops and branches that its source has opened. -/
def produce : Physical → Sink → Emit Unit
  | scan table columns rowId branch, next => scanRows table columns rowId branch next
  | select child predicate, next => child.produce (filterRow predicate next)
  | map child mappings, next => child.produce (mapRow mappings next)
  | join left right keys carried, next => joinRows left.produce right.produce keys carried next
  | group child aggregates, next => groupRows child.produce aggregates next
  | print child selection, _ => printRows child.produce selection
  | collect child selection, _ => child.produce (collectRow selection)
  | insert table types values, _ => insertRow table types values
  | update child table rowId assignments, _ =>
    countedRows child.produce (updateRow table rowId assignments) "%ld rows updated\n"
  | delete child table rowId, _ => countedRows child.produce (deleteRow table rowId) "%ld rows deleted\n"

def largestFrame : Nat := 1 <<< 40

def checkFrame : Emit Unit := do
  let sizes := (← get).function.slots.toList.map StackSlot.size
  if largestFrame < sizes.foldr (· + ·) 0 then trap

def emit (plan : Physical) : Emit Unit := do
  plan.produce fun _ => fail (.flow (.noParent (plan.size - 1)))
  checkFrame

end QueryEngine.Physical
