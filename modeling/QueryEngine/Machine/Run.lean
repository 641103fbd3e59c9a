import QueryEngine.Machine.Routines

namespace QueryEngine

inductive RunError where
  | unknownFunction (name : String)
  | argumentCount (name : String) (expected given : Nat)
  | nullPointer (function : String)
  | missingEdge (block source : Label)
  | routine (cause : RoutineError)
  /-- The run has been given up after as many blocks as it may enter. -/
  | blockLimit
deriving Repr, DecidableEq

def RunError.message : RunError → String
  | unknownFunction name => "No function named " ++ name ++ " in the module."
  | argumentCount name expected given =>
    "Function " ++ name ++ " takes " ++ toString expected ++ " arguments, " ++ toString given ++ " given."
  | nullPointer function => "Null pointer dereferenced in " ++ function ++ "."
  | missingEdge block source => "Phi in " ++ block.text ++ " has no value for the edge from " ++ source.text ++ "."
  | routine cause => "Runtime routine failed: " ++ cause.message
  | blockLimit => "Too many blocks entered."

abbrev Run := EStateM (Fault RunError) Machine

namespace BinaryOp

/-- The result of an operation on registers of type `ty`, before it is brought into the form of a register. -/
def apply (op : BinaryOp) (ty : CodeType) (a b : Word) : Word :=
  match op with
  | add => a + b
  | sub => a - b
  | mul => a * b
  | sdiv => if ty.signed b = 0 then 0 else Word.ofInt ((ty.signed a).tdiv (ty.signed b))
  | srem => if ty.signed b = 0 then 0 else Word.ofInt ((ty.signed a).tmod (ty.signed b))
  | and => a &&& b
  | or => a ||| b
  | xor => a ^^^ b
  | shl => a <<< b
  | lshr => ty.zeroExtend a >>> b

end BinaryOp

def OverflowOp.exact (op : OverflowOp) (a b : Int) : Int :=
  match op with
  | add => a + b
  | sub => a - b
  | mul => a * b

def OverflowOp.apply (op : OverflowOp) (ty : CodeType) (a b : Word) : Bool :=
  !ty.fits (op.exact (ty.signed a) (ty.signed b))

def Predicate.apply (pred : Predicate) (ty : CodeType) (a b : Word) : Bool :=
  match pred with
  | eq => ty.zeroExtend a = ty.zeroExtend b
  | ne => ty.zeroExtend a ≠ ty.zeroExtend b
  | slt => ty.signed a < ty.signed b
  | sle => ty.signed a ≤ ty.signed b
  | sgt => ty.signed b < ty.signed a
  | sge => ty.signed b ≤ ty.signed a
  | ult => ty.zeroExtend a < ty.zeroExtend b
  | ule => ty.zeroExtend a ≤ ty.zeroExtend b
  | ugt => ty.zeroExtend b < ty.zeroExtend a
  | uge => ty.zeroExtend b ≤ ty.zeroExtend a

abbrev Routines := Routine → List Word → Action Word

abbrev Frame := Array Word

namespace Frame

def value (frame : Frame) (r : Reg) : Word := frame.getD r.index 0

def set (frame : Frame) (r : Reg) (w : Word) : Frame := frame.setIfInBounds r.index w

def isSet (frame : Frame) (r : Reg) : Bool := frame.value r &&& 1 = 1

end Frame

namespace Run

variable {α : Type}

def fail (cause : RunError) : Run α := throw (.error cause)

def ofAction (action : Action α) : Run α := fun m =>
  match action m with
  | .ok a m => .ok a m
  | .error fault m => .error (fault.map .routine) m

def checkAddress (f : Function) (a : Word) : Run Unit := if a = 0 then fail (.nullPointer f.name) else return

def typeOf (f : Function) (r : Reg) : CodeType := (f.typeOf? r).getD .i64

section

variable (routines : Routines)

/-- The word an instruction gives; one without a result gives zero. -/
def execute (f : Function) (args : List Word) (frame : Frame) : Instruction → Run Word
  | .const _ bits => return bits
  | .param index => return args.getD index 0
  | .binary op lhs rhs => return op.apply (typeOf f lhs) (frame.value lhs) (frame.value rhs)
  | .overflows op lhs rhs => return Word.ofBool (op.apply (typeOf f lhs) (frame.value lhs) (frame.value rhs))
  | .compare pred lhs rhs => return Word.ofBool (pred.apply (typeOf f lhs) (frame.value lhs) (frame.value rhs))
  | .select cond thenValue elseValue =>
    return if frame.isSet cond then frame.value thenValue else frame.value elseValue
  | .cast op value _ =>
    match op with
    | .zext => return (typeOf f value).zeroExtend (frame.value value)
    | .sext | .trunc => return frame.value value
  | .load ty address => do
    checkAddress f (frame.value address)
    return (← get).load ty.storeSize (frame.value address)
  | .store value address => do
    checkAddress f (frame.value address)
    modify fun m => m.store (typeOf f value).storeSize (frame.value address) (frame.value value)
    return 0
  | .ptrAdd address offset => return frame.value address + frame.value offset
  | .call routine arguments => ofAction (routines routine (arguments.map frame.value))
  | .phi _ _ => return 0

def runLine (f : Function) (args : List Word) (frame : Frame) (line : Line) : Run Frame := do
  let w ← execute routines f args frame line.instruction
  match line.result with
  | some r => return frame.set r ((typeOf f r).normalize w)
  | none => return frame

def runLines (f : Function) (args : List Word) (frame : Frame) : List Line → Run Frame
  | [] => return frame
  | line :: rest => do runLines f args (← runLine routines f args frame line) rest

def phiValues (frame : Frame) (block source : Label) : List Line → Run (List (Option Reg × Word))
  | [] => return []
  | line :: rest => match line.instruction with
    | .phi _ incoming => match incoming.lookup source with
      | some value => do return (line.result, frame.value value) :: (← phiValues frame block source rest)
      | none => fail (.missingEdge block source)
    | _ => phiValues frame block source rest

/-- Phis get their values all at once. -/
def assignPhis (frame : Frame) : List (Option Reg × Word) → Frame
  | [] => frame
  | (some r, w) :: rest => assignPhis (frame.set r w) rest
  | (none, _) :: rest => assignPhis frame rest

def runBlock (f : Function) (args : List Word) (source label : Label) (block : CodeBlock) (frame : Frame) :
    Run Frame := do
  let lines := block.lines.toList
  let phis ← phiValues frame label source (lines.takeWhile fun line => line.instruction.isPhi)
  runLines routines f args (assignPhis frame phis) (lines.dropWhile fun line => line.instruction.isPhi)

/-- Runs from the block `label` on, which is entered from `source`, until the function returns. -/
def runFrom (f : Function) (args : List Word) : (limit : Nat) → (source label : Label) → Frame → Run (Option Word)
  | 0, _, _, _ => fail .blockLimit
  | limit + 1, source, label, frame =>
    match f.blocks[label.index]? with
    | none => throw .trap
    | some block => do
      let frame ← runBlock routines f args source label block frame
      match block.terminator with
      | some (.jump target) => runFrom f args limit label target frame
      | some (.branch cond thenBlock elseBlock) =>
        runFrom f args limit label (if frame.isSet cond then thenBlock else elseBlock) frame
      | some (.ret value) => return value.map frame.value
      | none => return none

end

/-- Where the bytes of a stack slot start. One without bytes has an address at which nothing lies. -/
def slotAddress (size : Nat) : Run Word :=
  if sizeLimit ≤ size + 7 ∨ Action.largestBuffer < (size + 7) / 8 * 8 then throw .trap
  else if size = 0 then return 8
  else do
    match (← get).newRegion? size with
    | some (a, m) => do
      set m
      return a
    | none => throw .trap

/-- The registers of a function that is entered: its stack slots are fresh memory, all else is zero. -/
def enterFrame (frame : Frame) : List StackSlot → Run Frame
  | [] => return frame
  | slot :: rest => do enterFrame (frame.set slot.address (← slotAddress slot.size)) rest

def blockLimit : Nat := 1 <<< 62

/-- Runs a function of the program to its end, if it enters at most `limit` blocks. -/
def functionWithin (routines : Routines) (limit : Nat) (name : String) (args : List Word) : Run (Option Word) := do
  match (← get).program.function? name with
  | none => fail (.unknownFunction name)
  | some f =>
    if f.params.length ≠ args.length then fail (.argumentCount name f.params.length args.length)
    let frame ← enterFrame (Array.replicate f.types.size 0) f.slots.toList
    runFrom routines f args limit ⟨0⟩ ⟨0⟩ frame

def function (name : String) (args : List Word) : Run (Option Word) :=
  functionWithin Routine.run blockLimit name args

end Run

end QueryEngine
