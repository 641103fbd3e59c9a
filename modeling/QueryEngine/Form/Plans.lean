import QueryEngine.Form.Values
import QueryEngine.Physical.Sketch

namespace QueryEngine.Form

def arithNames : List (String × ArithOp) := [("add", .add), ("sub", .sub), ("mul", .mul), ("div", .div)]

def comparisonNames : List (String × Comparison) :=
  [("=", .equal), ("<", .less), ("<=", .lessEq), (">=", .greaterEq), (">", .greater)]

instance : Readable ArithOp := ⟨readWord fun word => arithNames.lookup word⟩

instance : Readable Comparison := ⟨readWord fun word => comparisonNames.lookup word⟩

/-- A formula is a list: its operation, then its operands. -/
def readFormula : (limit : Nat) → Form → Result Formula
  | 0, _ => .error "a formula"
  | limit + 1, form => do
    let operand (i : Nat) : Result Formula := do readFormula limit (← form.item i)
    match ← form.item 0 with
    | "col" => return .column (← form.item 1)
    | "const" => return .constant (← form.item 1)
    | "typed" => return .typed (← form.item 1) (← form.item 2)
    | "null" => return .null
    | "cast" => return .cast (← operand 1) (← form.item 2)
    | "not" => return .not (← operand 1)
    | "and" => return .and (← operand 1) (← operand 2)
    | "or" => return .or (← operand 1) (← operand 2)
    | name => match arithNames.lookup name, comparisonNames.lookup name with
      | some op, _ => return .arithmetic op (← operand 1) (← operand 2)
      | _, some mode => return .compare mode (← operand 1) (← operand 2)
      | _, _ => .error ("a formula: " ++ name)

instance : Readable Formula := ⟨fun form => readFormula form.depth form⟩

def nameAt (form : Form) (i : Nat) : Result String := do readName (← form.item i)

def readNames (form : Form) : Result (List String) := do (← form.items).mapM readName

instance : Readable AggregateSketch where
  read form := do
    match ← form.item 0 with
    | "keep" => return .keep (← form.nameAt 1)
    | "count" => return .count (← form.nameAt 1)
    | "sum" => return .sum (← form.nameAt 1) (← form.item 2)
    | "avg" => return .avg (← form.nameAt 1) (← form.item 2)
    | "min" => return .min (← form.nameAt 1) (← form.item 2)
    | name => .error ("an aggregate: " ++ name)

def itemOr {α : Type} [Readable α] (form : Form) (i : Nat) (fallback : α) : Result α := do
  return (← form.item i : Option α).getD fallback

instance : Readable JoinMethod := ⟨readWord fun word => [("hash", JoinMethod.hash), ("index", .index)].lookup word⟩

def readTriple {α β γ : Type} [Readable α] [Readable β] [Readable γ] (form : Form) : Result (α × β × γ) := do
  return (← form.item 0, ← form.item 1, ← form.item 2)

def triples {α β γ : Type} [Readable α] [Readable β] [Readable γ] (form : Form) (i : Nat) :
    Result (List (α × β × γ)) := do
  let rows : List Form ← form.item i
  rows.mapM readTriple

def readMapped (form : Form) : Result (String × Formula × Option ValueType) := do
  return (← form.item 0, ← form.item 1, ← form.item 2)

instance : Readable PlanStep where
  read form := do
    match ← form.item 0 with
    | "scan" => return .scan (← form.item 1) (← form.item 2)
    | "rawscan" => return .columnScan (← form.item 1) (← form.triples 2) (← form.item 3) (← form.item 4)
    | "select" => return .select (← form.item 1) (← form.item 2)
    | "map" =>
      let rows : List Form ← form.item 2
      return .map (← form.item 1) (← rows.mapM readMapped)
    | "join" => return .join (← form.item 1) (← form.item 2) (← form.item 3) (← form.itemOr 4 JoinMethod.hash)
    | "group" => return .group (← form.item 1) (← form.item 2)
    | "result" => return .result (← form.item 1) (← form.item 2)
    | "insert" => return .insert (← form.item 1) (← form.item 2)
    | "update" => return .update (← form.item 1) (← form.item 2) (← form.item 3)
    | "delete" => return .delete (← form.item 1) (← form.item 2)
    | "rawinsert" => return .plainInsert (← form.item 1) (← form.item 2) (← form.item 3)
    | "rawupdate" => return .plainUpdate (← form.item 1) (← form.item 2) (← form.item 3) (← form.triples 4)
    | "rawdelete" => return .plainDelete (← form.item 1) (← form.item 2) (← form.item 3)
    | "root" => return .root (← form.item 1)
    | "iu" => return .newValue (← form.item 1) (← form.item 2)
    | "anon" => return .newHidden (← form.item 1) (← form.item 2)
    | name => .error ("a step: " ++ name)

def namedItems {α : Type} [Readable α] (form : Form) (i : Nat) : Result (List (α × String)) := do
  let rows : List Form ← form.item i
  rows.mapM fun row => do return (← row.item 0, ← row.nameAt 1)

def readMapping (form : Form) : Result (String × Formula) := do return (← form.nameAt 0, ← form.item 1)

instance : Readable AssemblyStep where
  read form := do
    let names (i : Nat) : Result (List String) := do readNames (← form.item i)
    match ← form.item 0 with
    | "scan" =>
      let rowId : Option Form ← form.item 3
      return .scan (← form.item 1) (← form.namedItems 2) (← rowId.mapM readName)
    | "select" => return .select (← form.item 1) (← form.item 2)
    | "map" =>
      let rows : List Form ← form.item 2
      return .map (← form.item 1) (← rows.mapM readMapping)
    | "join" => return .join (← form.item 1) (← form.item 2) (← form.item 3) (← names 4)
    | "group" => return .group (← form.item 1) (← form.item 2)
    | "print" => return .print (← form.item 1) (← names 2)
    | "result" => return .collect (← form.item 1) (← names 2)
    | "insert" => return .insert (← form.item 1) (← form.item 2) (← form.item 3)
    | "update" => return .update (← form.item 1) (← form.item 2) (← form.nameAt 3) (← form.triples 4)
    | "delete" => return .delete (← form.item 1) (← form.item 2) (← form.nameAt 3)
    | name => .error ("an operator: " ++ name)

end QueryEngine.Form
