import QueryEngine.Code.Script
import QueryEngine.Machine.Run

namespace QueryEngine

open Word

/-- A value of a script: its type, and its word in the form of that type. -/
abbrev Cell := CodeType × Word

namespace Cell

def of (ty : CodeType) (w : Word) : Cell := (ty, ty.normalize w)

def ofNat (n : Nat) : Cell := of .i64 (Word.ofInt n)

def isSet (x : Cell) : Bool := x.2 &&& 1 = 1

def binary (op : BinaryOp) (x y : Cell) : Cell := of x.1 (op.apply x.1 x.2 y.2)

def overflows (op : OverflowOp) (x y : Cell) : Cell := of .i1 (Word.ofBool (op.apply x.1 x.2 y.2))

def compare (pred : Predicate) (x y : Cell) : Cell := of .i1 (Word.ofBool (pred.apply x.1 x.2 y.2))

def not (x : Cell) : Cell := binary .xor x (of .i1 1)

def select (c x y : Cell) : Cell := of x.1 (if c.isSet then x.2 else y.2)

def cast (op : CastOp) (x : Cell) (ty : CodeType) : Cell :=
  match op with
  | .zext => of ty (x.1.zeroExtend x.2)
  | .sext | .trunc => of ty x.2

def resize (x : Cell) (ty : CodeType) (signed : Bool) : Cell :=
  if x.1.bits = ty.bits then x
  else if ty.bits < x.1.bits then x.cast .trunc ty
  else if signed then x.cast .sext ty
  else x.cast .zext ty

def ptrAdd (x y : Cell) : Cell := of .ptr (x.2 + y.2)

def ptrOffset (x : Cell) (offset : Nat) : Cell := if offset = 0 then x else x.ptrAdd (ofNat offset)

end Cell

/-- The values that names stand for. -/
abbrev Env := List (String × Cell)

namespace Env

def get (env : Env) (name : String) : Run Cell :=
  match env.lookup name with
  | some x => return x
  | none => throw .trap

def getAll (env : Env) (names : List String) : Run (List Cell) := names.mapM env.get

def bind (env : Env) (name : String) (x : Cell) : Env := (name, x) :: env

def bindAll (env : Env) : List String → List Cell → Env
  | name :: names, x :: cells => bindAll (env.bind name x) names cells
  | _, _ => env

def bindSome (env : Env) : Option String → Option Cell → Env
  | some name, some x => env.bind name x
  | _, _ => env

end Env

/-- Where a statement stands in the text of its function: the program with what earlier statements have named in it, the
parameters of the function, the number of its block and of all blocks so far, and the sizes of the stack slots so far. -/
structure Site where
  program : Program
  params : List CodeType
  block : Nat := 0
  blocks : Nat := 1
  slots : List Nat := []

namespace Site

/-- A construct has three blocks of its own. Its first part starts in the first of them. -/
def first (site : Site) : Site := { site with block := site.blocks, blocks := site.blocks + 3 }

/-- Where the second part of a construct starts whose first part ends at `last`. -/
def second (site last : Site) : Site := { last with block := site.blocks + 1 }

/-- What follows a construct whose second part ends at `last`. -/
def third (site last : Site) : Site := { last with block := site.blocks + 2 }

/-- The address of a literal. -/
def literal (site : Site) (bytes : Bytes) : Word := ((site.program.literals.intern? bytes).map Prod.fst).getD 0

end Site

mutual

/-- Where what follows a statement stands. -/
def Statement.leave (site : Site) : Statement → Site
  | .stackSlot _ size => { site with slots := site.slots ++ [size] }
  | .constBytes _ _ bytes => { site with
      program.literals := ((site.program.literals.intern? bytes).map Prod.snd).getD site.program.literals }
  | .call _ name _ | .callValue _ name _ =>
    match Routine.named? name with
    | some routine => { site with program := site.program.declare routine }
    | none => site
  | .tableHandle _ table => { site with program := (site.program.tableHandle table).2 }
  | .tupleLayout _ types => { site with program := (site.program.tupleLayout types).2 }
  | .columnList _ columns => { site with program := (site.program.columnList columns).2 }
  | .ifThenElse _ thenBody _ elseBody _ _ =>
    site.third (leaveAll (site.second (leaveAll site.first thenBody)) elseBody)
  | .ifThen _ body => site.third (site.second (leaveAll site.first body))
  | .whileLoop _ _ condBody _ body _ _ =>
    site.third (leaveAll (site.second (leaveAll site.first condBody)) body)
  | .forRange _ _ _ body => site.third (leaveAll (site.second site.first) body)
  | _ => site

def Statement.leaveAll (site : Site) : List Statement → Site
  | [] => site
  | statement :: rest => leaveAll (leave site statement) rest

end

namespace Run

variable {γ : Type}

/-- Runs `body` for as long as `cond` holds of the carried values, at most `limit` times. Gives the values of which it
does not hold, and what the condition gave for them. -/
def repeatWhile (cond : List Cell → Run (Cell × γ)) (body : γ → List Cell → Run (List Cell)) :
    (limit : Nat) → List Cell → Run (List Cell × γ)
  | 0, _ => fail .blockLimit
  | limit + 1, cells => do
    let (continues, x) ← cond cells
    if continues.isSet then repeatWhile cond body limit (← body x cells) else return (cells, x)

/-- Runs `body` for `count` numbers from `n` on. -/
def countUp (body : Int → Run Unit) : (count : Nat) → (n : Int) → Run Unit
  | 0, _ => return
  | count + 1, n => do
    body n
    countUp body count (n + 1)

end Run

/-- What a function is run with. -/
structure Invocation where
  name : String
  args : List Word
  /-- The addresses of its stack slots. -/
  slots : List Word
  routines : Routines

namespace Invocation

variable (call : Invocation)

def param (params : List CodeType) (index : Nat) : Run Cell :=
  match params[index]? with
  | some ty => return .of ty (call.args.getD index 0)
  | none => throw .trap

/-- The address of the stack slot with some number. -/
def slot (index : Nat) : Cell := .of .ptr (call.slots.getD index 0)

def checkAddress (address : Cell) : Run Unit :=
  if address.2 = 0 then Run.fail (.nullPointer call.name) else return

def load (ty : CodeType) (address : Cell) : Run Cell := do
  call.checkAddress address
  return .of ty ((← get).load ty.storeSize address.2)

def store (value address : Cell) : Run Unit := do
  call.checkAddress address
  modify fun m => m.store value.1.storeSize address.2 value.2

/-- Calls a routine; its result has the type that it is declared with. -/
def invoke (name : String) (args : List Cell) : Run (Option Cell) :=
  match Routine.named? name with
  | some routine => do
    let w ← Run.ofAction (call.routines routine (args.map Prod.snd))
    return routine.result.map fun ty => .of ty w
  | none => throw .trap

end Invocation

mutual

/-- Runs a statement and gives the values that names stand for after it. Of what a side of a branch or the body of a loop
names, only the values it hands over are seen after it. A loop is given up after `limit` times. -/
def Statement.run (call : Invocation) (limit : Nat) (site : Site) (env : Env) : Statement → Run Env
  | .const target ty n => return env.bind target (.of ty (Word.ofInt n))
  | .constBool target value => return env.bind target (.of .i1 (Word.ofBool value))
  | .nullPtr target => return env.bind target (.of .ptr 0)
  | .param target index => do return env.bind target (← call.param site.params index)
  | .binary target op lhs rhs => do return env.bind target (.binary op (← env.get lhs) (← env.get rhs))
  | .overflows target op lhs rhs => do return env.bind target (.overflows op (← env.get lhs) (← env.get rhs))
  | .compare target pred lhs rhs => do return env.bind target (.compare pred (← env.get lhs) (← env.get rhs))
  | .not target value => do return env.bind target (← env.get value).not
  | .select target cond thenValue elseValue => do
    return env.bind target (.select (← env.get cond) (← env.get thenValue) (← env.get elseValue))
  | .cast target op value ty => do return env.bind target ((← env.get value).cast op ty)
  | .resize target value ty signed => do return env.bind target ((← env.get value).resize ty signed)
  | .load target ty address => do return env.bind target (← call.load ty (← env.get address))
  | .store value address => do
    call.store (← env.get value) (← env.get address)
    return env
  | .ptrAdd target address offset => do return env.bind target ((← env.get address).ptrAdd (← env.get offset))
  | .ptrOffset target address offset => do return env.bind target ((← env.get address).ptrOffset offset)
  | .stackSlot target _ => return env.bind target (call.slot site.slots.length)
  | .constBytes address length bytes =>
    return (env.bind address (.of .ptr (site.literal bytes))).bind length (.ofNat bytes.length)
  | .call target name args | .callValue target name args => do
    return env.bindSome target (← call.invoke name (← env.getAll args))
  | .ret _ => throw .trap
  | .tableHandle target table => return env.bind target (.ofNat (site.program.tableHandle table).1)
  | .tupleLayout target types => return env.bind target (.ofNat (site.program.tupleLayout types).1.1)
  | .columnList target columns => return env.bind target (.ofNat (site.program.columnList columns).1)
  | .blockNumber target => return env.bind target (.ofNat site.block)
  | .ifThenElse cond thenBody thenValues elseBody elseValues targets => do
    let values ← if (← env.get cond).isSet then
        (do (← runAll call limit site.first env thenBody).getAll thenValues)
      else
        (do (← runAll call limit (site.second (leaveAll site.first thenBody)) env
          elseBody).getAll elseValues)
    return env.bindAll targets values
  | .ifThen cond body => do
    if (← env.get cond).isSet then discard (runAll call limit site.first env body)
    return env
  | .whileLoop init carried condBody cond body next targets => do
    let (values, env) ← Run.repeatWhile
      (fun values => do
        let env ← runAll call limit site.first (env.bindAll carried values) condBody
        return (← env.get cond, env))
      (fun env values => do
        (← runAll call limit (site.second (leaveAll site.first condBody))
          (env.bindAll carried values) body).getAll next)
      limit (← env.getAll init)
    return (env.bindAll carried values).bindAll targets values
  | .forRange start stop counter body => do
    let (ty, w) ← env.get start
    let first := ty.signed w
    let last := ty.signed (← env.get stop).2
    Run.countUp
      (fun n => discard (runAll call limit (site.second site.first)
        (env.bind counter (.of ty (Word.ofInt n))) body))
      (last - first).toNat first
    return env.bind counter (.of ty (Word.ofInt (max first last)))

def Statement.runAll (call : Invocation) (limit : Nat) (site : Site) (env : Env) : List Statement → Run Env
  | [] => return env
  | statement :: rest => do
    runAll call limit (leave site statement) (← run call limit site env statement) rest

end

/-- Runs statements up to the one that returns from the function. -/
def Statement.runBody (call : Invocation) (limit : Nat) (site : Site) (env : Env) : List Statement → Run (Option Word)
  | [] => return none
  | .ret value :: _ => value.mapM fun name => do return (← env.get name).2
  | statement :: rest => do
    runBody call limit (leave site statement) (← run call limit site env statement) rest

/-- Runs a script that is written down after what `program` holds. Its stack slots are fresh memory. -/
def Script.run (script : Script) (program : Program) (routines : Routines) (limit : Nat) (args : List Word) :
    Run (Option Word) := do
  if script.params.length ≠ args.length then
    Run.fail (.argumentCount script.name script.params.length args.length)
  let start : Site := { program, params := script.params }
  let slots ← (Statement.leaveAll start script.body).slots.mapM Run.slotAddress
  Statement.runBody ⟨script.name, args, slots, routines⟩ limit start [] script.body

end QueryEngine
