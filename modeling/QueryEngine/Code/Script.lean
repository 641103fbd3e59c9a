import QueryEngine.Code.Builder

namespace QueryEngine

/-- A step of a function that is written down with structured control flow. Registers have names, and a name that is
given again stands for the new register. -/
inductive Statement where
  | const (target : String) (ty : CodeType) (n : Int)
  | constBool (target : String) (value : Bool)
  | nullPtr (target : String)
  | param (target : String) (index : Nat)
  | binary (target : String) (op : BinaryOp) (lhs rhs : String)
  | overflows (target : String) (op : OverflowOp) (lhs rhs : String)
  | compare (target : String) (pred : Predicate) (lhs rhs : String)
  | not (target value : String)
  | select (target cond thenValue elseValue : String)
  | cast (target : String) (op : CastOp) (value : String) (ty : CodeType)
  | resize (target value : String) (ty : CodeType) (signed : Bool)
  | load (target : String) (ty : CodeType) (address : String)
  | store (value address : String)
  | ptrAdd (target address offset : String)
  | ptrOffset (target address : String) (offset : Nat)
  | stackSlot (target : String) (size : Nat)
  | constBytes (address length : String) (bytes : Bytes)
  | call (target : Option String) (routine : String) (args : List String)
  | callValue (target : Option String) (routine : String) (args : List String)
  | ret (value : Option String)
  | tableHandle (target table : String)
  | tupleLayout (target : String) (types : List ValueType)
  | columnList (target : String) (columns : List Nat)
  /-- The number of the block the code goes to. -/
  | blockNumber (target : String)
  | ifThenElse (cond : String) (thenBody : List Statement) (thenValues : List String) (elseBody : List Statement)
      (elseValues targets : List String)
  | ifThen (cond : String) (body : List Statement)
  | whileLoop (init carried : List String) (condBody : List Statement) (cond : String) (body : List Statement)
      (next targets : List String)
  | forRange (start stop counter : String) (body : List Statement)

/-- The registers that names stand for. A name given inside of a construct stays known after it. -/
abbrev Scope := List (String × Reg)

namespace Scope

def reg (scope : Scope) (name : String) : Emit Reg := Emit.orTrap (scope.lookup name)

def regs (scope : Scope) (names : List String) : Emit (List Reg) := names.mapM scope.reg

def bind (scope : Scope) (name : String) (r : Reg) : Scope := (name, r) :: scope

def bindAll (scope : Scope) : List String → List Reg → Scope
  | name :: names, r :: regs => bindAll (scope.bind name r) names regs
  | _, _ => scope

def bindSome (scope : Scope) : Option String → Option Reg → Scope
  | some name, some r => scope.bind name r
  | _, _ => scope

end Scope

mutual

def Statement.emit (scope : Scope) : Statement → Emit Scope
  | .const target ty n => do return scope.bind target (← Emit.const ty n)
  | .constBool target value => do return scope.bind target (← Emit.constBool value)
  | .nullPtr target => do return scope.bind target (← Emit.nullPtr)
  | .param target index => do return scope.bind target (← Emit.param index)
  | .binary target op lhs rhs => do
    return scope.bind target (← Emit.binary op (← scope.reg lhs) (← scope.reg rhs))
  | .overflows target op lhs rhs => do
    return scope.bind target (← Emit.overflows op (← scope.reg lhs) (← scope.reg rhs))
  | .compare target pred lhs rhs => do
    return scope.bind target (← Emit.compare pred (← scope.reg lhs) (← scope.reg rhs))
  | .not target value => do return scope.bind target (← Emit.not (← scope.reg value))
  | .select target cond thenValue elseValue => do
    return scope.bind target
      (← Emit.select (← scope.reg cond) (← scope.reg thenValue) (← scope.reg elseValue))
  | .cast target op value ty => do return scope.bind target (← Emit.cast op (← scope.reg value) ty)
  | .resize target value ty signed => do
    return scope.bind target (← Emit.resize (← scope.reg value) ty signed)
  | .load target ty address => do return scope.bind target (← Emit.load ty (← scope.reg address))
  | .store value address => do
    Emit.store (← scope.reg value) (← scope.reg address)
    return scope
  | .ptrAdd target address offset => do
    return scope.bind target (← Emit.ptrAdd (← scope.reg address) (← scope.reg offset))
  | .ptrOffset target address offset => do
    return scope.bind target (← Emit.ptrOffset (← scope.reg address) offset)
  | .stackSlot target size => do return scope.bind target (← Emit.stackSlot size)
  | .constBytes address length bytes => do
    let (ptr, len) ← Emit.constBytes bytes
    return (scope.bind address ptr).bind length len
  | .call target routine args => do
    let args ← scope.regs args
    return scope.bindSome target (← Emit.call (← Emit.routineNamed routine) args)
  | .callValue target routine args => do
    let args ← scope.regs args
    return scope.bindSome target (some (← Emit.callValue (← Emit.routineNamed routine) args))
  | .ret value => do
    Emit.ret (← value.mapM scope.reg)
    return scope
  | .tableHandle target table => do
    let handle ← Emit.inProgram fun program => program.tableHandle table
    return scope.bind target (← Emit.const .i64 handle)
  | .tupleLayout target types => do
    let (id, _) ← Emit.inProgram fun program => program.tupleLayout types
    return scope.bind target (← Emit.const .i64 id)
  | .columnList target columns => do
    let id ← Emit.inProgram fun program => program.columnList columns
    return scope.bind target (← Emit.const .i64 id)
  | .blockNumber target => do
    let current := (← get).current
    return scope.bind target (← Emit.const .i64 current.index)
  | .ifThenElse cond thenBody thenValues elseBody elseValues targets => do
    let (merged, scope) ← Emit.ifThenElseWith (← scope.reg cond)
      (do
        let scope ← Statement.emitAll scope thenBody
        return (← scope.regs thenValues, scope))
      fun scope => do
        let scope ← Statement.emitAll scope elseBody
        return (← scope.regs elseValues, scope)
    return scope.bindAll targets merged
  | .ifThen cond body => do Emit.ifThen (← scope.reg cond) (Statement.emitAll scope body)
  | .whileLoop init carried condBody cond body next targets => do
    let (result, scope) ← Emit.whileLoopWith (← scope.regs init)
      (fun values => do
        let scope ← Statement.emitAll (scope.bindAll carried values) condBody
        return (← scope.reg cond, scope))
      fun scope values => do
        let scope ← Statement.emitAll (scope.bindAll carried values) body
        return (← scope.regs next, scope)
    return scope.bindAll targets result
  | .forRange start stop counter body => do
    Emit.forRange (← scope.reg start) (← scope.reg stop) fun i => Statement.emitAll (scope.bind counter i) body

def Statement.emitAll (scope : Scope) : List Statement → Emit Scope
  | [] => return scope
  | statement :: rest => do Statement.emitAll (← Statement.emit scope statement) rest

end

structure Script where
  name : String
  params : List CodeType
  result : Option CodeType
  body : List Statement

def Script.emit (script : Script) (program : Program) : Program × Checked EmitError Unit :=
  program.addFunction script.name script.params script.result (discard (Statement.emitAll [] script.body))

end QueryEngine
