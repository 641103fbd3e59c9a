import QueryEngine.Code.Error
import QueryEngine.Code.Program

namespace QueryEngine

/-- A function that is being emitted, and the program it goes into. Code goes to the end of the current block. -/
structure Builder where
  program : Program
  function : Function
  current : Label := ⟨0⟩

namespace Builder

def start (program : Program) (name : String) (params : List CodeType) (result : Option CodeType) : Builder where
  program
  function := { name, params, result }

def addReg (b : Builder) (ty : CodeType) : Reg × Builder :=
  (⟨b.function.types.size⟩, { b with function.types := b.function.types.push ty })

def addBlock (b : Builder) : Label × Builder :=
  (⟨b.function.blocks.size⟩, { b with function.blocks := b.function.blocks.push {} })

def modifyBlock (b : Builder) (label : Label) (change : CodeBlock → CodeBlock) : Builder :=
  { b with function.blocks := b.function.blocks.modify label.index change }

def append (b : Builder) (line : Line) : Builder :=
  b.modifyBlock b.current fun block => { block with lines := block.lines.push line }

/-- Ends the current block, unless it has ended already. -/
def terminate (b : Builder) (terminator : Terminator) : Builder :=
  b.modifyBlock b.current fun block => { block with terminator := block.terminator <|> some terminator }

def define (b : Builder) (ty : CodeType) (instruction : Instruction) : Reg × Builder :=
  let (r, b) := b.addReg ty
  (r, b.append ⟨some r, instruction⟩)

def addIncoming (b : Builder) (label : Label) (r : Reg) (edge : Label × Reg) : Builder :=
  b.modifyBlock label fun block => { block with lines := block.lines.map fun line =>
    match line.instruction with
    | .phi ty incoming =>
      if line.result = some r then { line with instruction := .phi ty (incoming ++ [edge]) } else line
    | _ => line }

end Builder

/-- Emission of code. What has been emitted stays when it fails. -/
abbrev Emit := EStateM (Fault EmitError) Builder

namespace Emit

variable {α : Type}

def fail (cause : EmitError) : Emit α := throw (.error cause)

def failCode (cause : CodeError) : Emit α := fail (.code cause)

def failValue (problem : ValueProblem) : Emit α := fail (.value problem)

def trap : Emit α := throw .trap

def orTrap : Option α → Emit α
  | some a => pure a
  | none => trap

def ofChecked {ε : Type} (wrap : ε → EmitError) : Checked ε α → Emit α
  | .ok a => pure a
  | .error fault => throw (fault.map wrap)

def inProgram (change : Program → α × Program) : Emit α :=
  modifyGet fun b =>
    let (a, program) := change b.program
    (a, { b with program })

def encoding : Emit NullEncoding := do return (← get).program.encoding

def typeOf (r : Reg) : Emit CodeType := do orTrap ((← get).function.typeOf? r)

def newBlock : Emit Label := modifyGet Builder.addBlock

def enter (label : Label) : Emit Unit := modify fun b => { b with current := label }

def append (instruction : Instruction) : Emit Unit := modify fun b => b.append ⟨none, instruction⟩

def define (ty : CodeType) (instruction : Instruction) : Emit Reg := modifyGet fun b => b.define ty instruction

def terminate (terminator : Terminator) : Emit Unit := modify fun b => b.terminate terminator

def param (index : Nat) : Emit Reg := do
  match (← get).function.params[index]? with
  | some ty => define ty (.param index)
  | none => failCode (.noParameter index)

def const (ty : CodeType) (n : Int) : Emit Reg := define ty (.const ty (ty.normalize (Word.ofInt n)))

def constWord (w : Word) : Emit Reg := define .i64 (.const .i64 w)

def constBool (value : Bool) : Emit Reg := const .i1 (if value then 1 else 0)

def nullPtr : Emit Reg := const .ptr 0

def intern (bytes : Bytes) : Emit Word := do
  let (address, literals) ← orTrap ((← get).program.literals.intern? bytes)
  modify fun b => { b with program.literals := literals }
  return address

/-- A literal of the program: its address and its length. -/
def constBytes (bytes : Bytes) : Emit (Reg × Reg) := do
  let address ← intern bytes
  let ptr ← define .ptr (.const .ptr address)
  let len ← const .i64 bytes.length
  return (ptr, len)

def binary (op : BinaryOp) (lhs rhs : Reg) : Emit Reg := do define (← typeOf lhs) (.binary op lhs rhs)

def overflows (op : OverflowOp) (lhs rhs : Reg) : Emit Reg := define .i1 (.overflows op lhs rhs)

def compare (pred : Predicate) (lhs rhs : Reg) : Emit Reg := define .i1 (.compare pred lhs rhs)

def not (r : Reg) : Emit Reg := do
  let one ← const .i1 1
  binary .xor r one

def select (cond thenValue elseValue : Reg) : Emit Reg := do
  define (← typeOf thenValue) (.select cond thenValue elseValue)

def cast (op : CastOp) (value : Reg) (ty : CodeType) : Emit Reg := define ty (.cast op value ty)

/-- Widens or narrows a value to `ty`, with its sign if `signed`. -/
def resize (value : Reg) (ty : CodeType) (signed : Bool) : Emit Reg := do
  let source ← typeOf value
  if source.bits = ty.bits then return value
  else if ty.bits < source.bits then cast .trunc value ty
  else if signed then cast .sext value ty
  else cast .zext value ty

def load (ty : CodeType) (address : Reg) : Emit Reg := define ty (.load ty address)

def store (value address : Reg) : Emit Unit := append (.store value address)

def ptrAdd (address offset : Reg) : Emit Reg := define .ptr (.ptrAdd address offset)

def ptrOffset (address : Reg) (offset : Nat) : Emit Reg := do
  if offset = 0 then return address
  let offset ← const .i64 offset
  ptrAdd address offset

def stackSlot (size : Nat) : Emit Reg :=
  modifyGet fun b =>
    let (address, b) := b.addReg .ptr
    (address, { b with function.slots := b.function.slots.push ⟨address, size⟩ })

def checkArguments (name : String) : (index : Nat) → List CodeType → List Reg → Emit Unit
  | index, expected :: params, arg :: args => do
    let given ← typeOf arg
    if given = expected then checkArguments name (index + 1) params args
    else failCode (.badCall name (.argument index given expected))
  | _, _, _ => return

def call (routine : Routine) (args : List Reg) : Emit (Option Reg) := do
  if routine.params.length ≠ args.length then
    failCode (.badCall routine.name (.count routine.params.length args.length))
  checkArguments routine.name 0 routine.params args
  inProgram fun program => ((), program.declare routine)
  match routine.result with
  | some ty => some <$> define ty (.call routine args)
  | none => do
    append (.call routine args)
    return none

def callValue (routine : Routine) (args : List Reg) : Emit Reg := do
  match ← call routine args with
  | some r => return r
  | none => failCode (.badCall routine.name .noResult)

def callEffect (routine : Routine) (args : List Reg) : Emit Unit := discard (call routine args)

def routineNamed (name : String) : Emit Routine :=
  match Routine.named? name with
  | some routine => return routine
  | none => failCode (.unknownRoutine name)

def ret (value : Option Reg) : Emit Unit := terminate (.ret value)

/-- Emits `body` from the block `entry` on and jumps from where it ends to `exit`. Gives what the body gives and the
block it ends in. A body that fails is closed in the same way, and code goes on at `exit`. -/
def between (entry exit : Label) (body : Emit α) : Emit (α × Label) := fun b =>
  match body { b with current := entry } with
  | .ok a b => .ok (a, b.current) (b.terminate (.jump exit))
  | .error fault b => .error fault { b.terminate (.jump exit) with current := exit }

def checkMergeTypes : (position : Nat) → List Reg → List Reg → Emit Unit
  | position, a :: first, b :: second => do
    let firstType ← typeOf a
    let secondType ← typeOf b
    if firstType = secondType then checkMergeTypes (position + 1) first second
    else failCode (.mergeType position firstType secondType)
  | _, _, _ => return

def checkMerge (first second : List Reg) : Emit Unit := do
  if first.length ≠ second.length then failCode (.mergeCount first.length second.length)
  checkMergeTypes 0 first second

def mergeValues (firstEnd secondEnd : Label) : List Reg → List Reg → Emit (List Reg)
  | a :: first, b :: second => do
    let ty ← typeOf a
    let merged ← define ty (.phi ty [(firstEnd, a), (secondEnd, b)])
    return merged :: (← mergeValues firstEnd secondEnd first second)
  | _, _ => return []

/-- Branches on a single bit. Both sides give as many values of the same types, which are merged. The first side also
gives what the emission of the second starts from. -/
def ifThenElseWith {β : Type} (cond : Reg) (thenCode : Emit (List Reg × α)) (elseCode : α → Emit (List Reg × β)) :
    Emit (List Reg × β) := do
  let thenBlock ← newBlock
  let elseBlock ← newBlock
  let merge ← newBlock
  terminate (.branch cond thenBlock elseBlock)
  let ((thenValues, a), thenEnd) ← between thenBlock merge thenCode
  let ((elseValues, b), elseEnd) ← between elseBlock merge (elseCode a)
  enter merge
  checkMerge thenValues elseValues
  return (← mergeValues thenEnd elseEnd thenValues elseValues, b)

def ifThenElse (cond : Reg) (thenCode elseCode : Emit (List Reg)) : Emit (List Reg) := do
  let (merged, _) ← ifThenElseWith cond ((·, ()) <$> thenCode) fun _ => (·, ()) <$> elseCode
  return merged

def ifThen (cond : Reg) (code : Emit α) : Emit α := do
  let (_, a) ← ifThenElseWith cond (([], ·) <$> code) fun a => return ([], a)
  return a

def carryValues (preheader : Label) : List Reg → Emit (List Reg)
  | [] => return []
  | value :: rest => do
    let ty ← typeOf value
    let carried ← define ty (.phi ty [(preheader, value)])
    return carried :: (← carryValues preheader rest)

/-- Emits the condition of a loop. One that fails leaves the loop. -/
def loopCondition (exit : Label) (cond : Emit α) : Emit α := fun b =>
  match cond b with
  | .ok a b => .ok a b
  | .error fault b => .error fault { b.terminate (.jump exit) with current := exit }

def addLatch (header latch : Label) : List Reg → List Reg → Emit Unit
  | phi :: carried, value :: next => do
    modify fun b => b.addIncoming header phi (latch, value)
    addLatch header latch carried next
  | _, _ => return

/-- Runs `body` for as long as `cond` holds. Both see the values carried by the loop, and the body gives the next
ones. The emission of the condition also gives what that of the body starts from. Gives the values carried when the
loop ends. -/
def whileLoopWith {β : Type} (init : List Reg) (cond : List Reg → Emit (Reg × α))
    (body : α → List Reg → Emit (List Reg × β)) : Emit (List Reg × β) := do
  let header ← newBlock
  let bodyBlock ← newBlock
  let exit ← newBlock
  let preheader := (← get).current
  terminate (.jump header)
  enter header
  let carried ← carryValues preheader init
  let (continues, a) ← loopCondition exit (cond carried)
  terminate (.branch continues bodyBlock exit)
  let ((next, b), latch) ← between bodyBlock header (body a carried)
  enter exit
  checkMerge carried next
  addLatch header latch carried next
  return (carried, b)

def whileLoop (init : List Reg) (cond : List Reg → Emit Reg) (body : List Reg → Emit (List Reg)) :
    Emit (List Reg) := do
  let (carried, _) ← whileLoopWith init (fun values => (·, ()) <$> cond values)
    fun _ values => (·, ()) <$> body values
  return carried

def forRange (start stop : Reg) (body : Reg → Emit α) : Emit α := do
  let cond (carried : List Reg) : Emit (Reg × Unit) := match carried with
    | [i] => (·, ()) <$> compare .slt i stop
    | _ => trap
  let step (_ : Unit) (carried : List Reg) : Emit (List Reg × α) := match carried with
    | [i] => do
      let a ← body i
      let one ← const .i64 1
      return ([← binary .add i one], a)
    | _ => trap
  let (_, a) ← whileLoopWith [start] cond step
  return a

end Emit

namespace Program

/-- Adds a function whose emission is over. One without a result returns where its code ends. -/
def finish (b : Builder) : Checked CodeError Program := do
  let b := if b.function.result.isNone then b.terminate (.ret none) else b
  b.function.verify.mapCause .function
  if (b.program.function? b.function.name).isSome then Checked.fail (.duplicateFunction b.function.name)
  .ok { b.program with functions := b.program.functions.push b.function }

/-- Emits a function into a program. When that fails, the program keeps what the code would have named. -/
def addFunction (program : Program) (name : String) (params : List CodeType) (result : Option CodeType)
    (body : Emit Unit) : Program × Checked EmitError Unit :=
  match body (Builder.start program name params result) with
  | .error fault b => (b.program, .error fault)
  | .ok _ b => match finish b with
    | .ok program => (program, .ok ())
    | .error fault => (b.program, .error (fault.map .code))

end Program

end QueryEngine
