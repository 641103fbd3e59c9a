import QueryEngine.Code.Routine
import QueryEngine.Fault

namespace QueryEngine

/-- A value of emitted code. It is defined once. -/
structure Reg where
  index : Nat
deriving Repr, DecidableEq

structure Label where
  index : Nat
deriving Repr, DecidableEq

def Reg.text (r : Reg) : String := "%" ++ toString r.index

def Label.text (label : Label) : String := "bb" ++ toString label.index

/-- Wrapping integer arithmetic. Division is signed, and by zero it gives zero. -/
inductive BinaryOp where
  | add
  | sub
  | mul
  | sdiv
  | srem
  | and
  | or
  | xor
  | shl
  | lshr
deriving Repr, DecidableEq

def BinaryOp.text : BinaryOp → String
  | add => "add"
  | sub => "sub"
  | mul => "mul"
  | sdiv => "sdiv"
  | srem => "srem"
  | and => "and"
  | or => "or"
  | xor => "xor"
  | shl => "shl"
  | lshr => "lshr"

/-- Operations that can be asked whether their signed result fits the width of the operands. -/
inductive OverflowOp where
  | add
  | sub
  | mul
deriving Repr, DecidableEq

def OverflowOp.text : OverflowOp → String
  | add => "add"
  | sub => "sub"
  | mul => "mul"

inductive Predicate where
  | eq
  | ne
  | slt
  | sle
  | sgt
  | sge
  | ult
  | ule
  | ugt
  | uge
deriving Repr, DecidableEq

def Predicate.text : Predicate → String
  | eq => "eq"
  | ne => "ne"
  | slt => "slt"
  | sle => "sle"
  | sgt => "sgt"
  | sge => "sge"
  | ult => "ult"
  | ule => "ule"
  | ugt => "ugt"
  | uge => "uge"

inductive CastOp where
  | zext
  | sext
  | trunc
deriving Repr, DecidableEq

def CastOp.text : CastOp → String
  | zext => "zext"
  | sext => "sext"
  | trunc => "trunc"

inductive Instruction where
  | const (ty : CodeType) (bits : Word)
  | param (index : Nat)
  | binary (op : BinaryOp) (lhs rhs : Reg)
  | overflows (op : OverflowOp) (lhs rhs : Reg)
  | compare (pred : Predicate) (lhs rhs : Reg)
  | select (cond thenValue elseValue : Reg)
  | cast (op : CastOp) (value : Reg) (ty : CodeType)
  | load (ty : CodeType) (address : Reg)
  | store (value address : Reg)
  | ptrAdd (address offset : Reg)
  | call (routine : Routine) (args : List Reg)
  /-- The value that belongs to the block control came from. -/
  | phi (ty : CodeType) (incoming : List (Label × Reg))
deriving Repr, DecidableEq

def Instruction.isPhi : Instruction → Bool
  | phi .. => true
  | _ => false

inductive Terminator where
  | jump (target : Label)
  | branch (cond : Reg) (thenBlock elseBlock : Label)
  | ret (value : Option Reg)
deriving Repr, DecidableEq

structure Line where
  result : Option Reg
  instruction : Instruction
deriving Repr, DecidableEq

structure CodeBlock where
  lines : Array Line := #[]
  terminator : Option Terminator := none
deriving Repr, DecidableEq

/-- `size` bytes that are zero when the function is entered. -/
structure StackSlot where
  address : Reg
  size : Nat
deriving Repr, DecidableEq

structure Function where
  name : String
  params : List CodeType
  result : Option CodeType
  blocks : Array CodeBlock := #[{}]
  types : Array CodeType := #[]
  slots : Array StackSlot := #[]
deriving Repr, DecidableEq

inductive Malformation where
  | latePhi (result : Option Reg)
  | phiType (value : Reg) (ty : CodeType)
  | operandTypes (lhs : Reg) (lhsType : CodeType) (rhs : Reg) (rhsType : CodeType)
  | selectTypes (thenValue elseValue : Reg)
deriving Repr, DecidableEq

def Malformation.text : Malformation → String
  | latePhi result =>
    let shown := match result with
      | some r => "Some(ValueId(" ++ toString r.index ++ "))"
      | none => "None"
    "phi " ++ shown ++ " after a non-phi instruction"
  | phiType value ty => "phi incoming " ++ value.text ++ " is not " ++ ty.text
  | operandTypes lhs lhsType rhs rhsType =>
    "operands " ++ lhs.text ++ " (" ++ lhsType.text ++ ") and " ++ rhs.text ++ " (" ++ rhsType.text ++
      ") differ in type"
  | selectTypes thenValue elseValue =>
    "select arms " ++ thenValue.text ++ " and " ++ elseValue.text ++ " differ in type"

inductive FunctionError where
  | unterminated (function : String) (block : Label)
  | malformed (function : String) (block : Label) (detail : Malformation)
deriving Repr, DecidableEq

def FunctionError.message : FunctionError → String
  | unterminated function block => "Block " ++ block.text ++ " of function " ++ function ++ " has no terminator."
  | malformed function block detail =>
    "Malformed instruction in " ++ function ++ ", " ++ block.text ++ ": " ++ detail.text ++ "."

namespace Function

def typeOf? (f : Function) (r : Reg) : Option CodeType := f.types[r.index]?

def wrongIncoming? (f : Function) (ty : CodeType) : List (Label × Reg) → Option (Option Reg)
  | [] => some none
  | (_, value) :: rest => do
    if (← f.typeOf? value) = ty then f.wrongIncoming? ty rest else some (some value)

/-- What is wrong with the types of an instruction; a register that the function does not have is a trap. -/
def malformation? (f : Function) : Instruction → Option (Option Malformation)
  | .phi ty incoming => do
    some ((← f.wrongIncoming? ty incoming).map fun value => .phiType value ty)
  | .binary _ lhs rhs | .overflows _ lhs rhs | .compare _ lhs rhs => do
    let lhsType ← f.typeOf? lhs
    let rhsType ← f.typeOf? rhs
    some (if lhsType = rhsType then none else some (.operandTypes lhs lhsType rhs rhsType))
  | .select _ thenValue elseValue => do
    let thenType ← f.typeOf? thenValue
    let elseType ← f.typeOf? elseValue
    some (if thenType = elseType then none else some (.selectTypes thenValue elseValue))
  | _ => some none

/-- Checks lines in order; `late` says that a line before them is no phi. -/
def verifyLines (f : Function) (label : Label) : (late : Bool) → List Line → Checked FunctionError Unit
  | _, [] => .ok ()
  | late, line :: rest => do
    if line.instruction.isPhi && late then Checked.fail (.malformed f.name label (.latePhi line.result))
    match ← Checked.orTrap (f.malformation? line.instruction) with
    | some detail => Checked.fail (.malformed f.name label detail)
    | none => f.verifyLines label (late || !line.instruction.isPhi) rest

def verifyBlock (f : Function) (label : Label) (block : CodeBlock) : Checked FunctionError Unit :=
  if block.terminator.isNone then Checked.fail (.unterminated f.name label)
  else f.verifyLines label false block.lines.toList

def verifyBlocks (f : Function) : (index : Nat) → List CodeBlock → Checked FunctionError Unit
  | _, [] => .ok ()
  | index, block :: rest => do
    f.verifyBlock ⟨index⟩ block
    f.verifyBlocks (index + 1) rest

/-- Checks that every block is terminated, that phis come first in their block, and that the operands of arithmetic,
comparisons, selections and phis agree in type. -/
def verify (f : Function) : Checked FunctionError Unit := f.verifyBlocks 0 f.blocks.toList

def typedRegText? (f : Function) (r : Reg) : Option String := do
  some ((← f.typeOf? r).text ++ " " ++ r.text)

def instructionText? (f : Function) : Instruction → Option String
  | .const ty bits => some ("const " ++ ty.text ++ " " ++ bits.signedText)
  | .param index => some ("param " ++ toString index)
  | .binary op lhs rhs => do
    some (op.text ++ " " ++ (← f.typedRegText? lhs) ++ ", " ++ rhs.text)
  | .overflows op lhs rhs => some ("overflows." ++ op.text ++ " " ++ lhs.text ++ ", " ++ rhs.text)
  | .compare pred lhs rhs => some ("icmp " ++ pred.text ++ " " ++ lhs.text ++ ", " ++ rhs.text)
  | .select cond thenValue elseValue =>
    some ("select " ++ cond.text ++ ", " ++ thenValue.text ++ ", " ++ elseValue.text)
  | .cast op value ty => some (op.text ++ " " ++ value.text ++ " to " ++ ty.text)
  | .load ty address => some ("load " ++ ty.text ++ ", " ++ address.text)
  | .store value address => some ("store " ++ value.text ++ ", " ++ address.text)
  | .ptrAdd address offset => some ("ptradd " ++ address.text ++ ", " ++ offset.text)
  | .call routine args => do
    some ("call @" ++ routine.name ++ "(" ++ String.intercalate ", " (← args.mapM f.typedRegText?) ++ ")")
  | .phi ty incoming =>
    let edges := incoming.map fun edge => "[" ++ edge.1.text ++ ": " ++ edge.2.text ++ "]"
    some ("phi " ++ ty.text ++ " " ++ String.intercalate " " edges)

def lineText? (f : Function) (line : Line) : Option String := do
  let result := match line.result with
    | some r => r.text ++ " = "
    | none => ""
  some ("  " ++ result ++ (← f.instructionText? line.instruction) ++ "\n")

def terminatorText : Option Terminator → String
  | some (.jump target) => "  br " ++ target.text ++ "\n"
  | some (.branch cond thenBlock elseBlock) =>
    "  condbr " ++ cond.text ++ ", " ++ thenBlock.text ++ ", " ++ elseBlock.text ++ "\n"
  | some (.ret (some value)) => "  ret " ++ value.text ++ "\n"
  | some (.ret none) => "  ret void\n"
  | none => "  <unterminated>\n"

def blockText? (f : Function) (label : Label) (block : CodeBlock) : Option String := do
  let lines ← block.lines.toList.mapM f.lineText?
  some (label.text ++ ":\n" ++ String.join lines ++ terminatorText block.terminator)

def resultText (result : Option CodeType) : String := (result.map CodeType.text).getD "void"

def paramsText (params : List CodeType) : String := String.intercalate ", " (params.map CodeType.text)

def slotText (slot : StackSlot) : String := "  " ++ slot.address.text ++ " = alloca " ++ toString slot.size ++ "\n"

/-- The text of a function, unless it names a register it does not have. -/
def text? (f : Function) : Option String := do
  let blocks ← f.blocks.toList.zipIdx.mapM fun block => f.blockText? ⟨block.2⟩ block.1
  some ("define " ++ resultText f.result ++ " @" ++ f.name ++ "(" ++ paramsText f.params ++ ") \x7b\n" ++
    String.join (f.slots.toList.map slotText) ++ String.join blocks ++ "\x7d\n")

end Function

end QueryEngine
