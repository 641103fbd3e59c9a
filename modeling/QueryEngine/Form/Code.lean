import QueryEngine.Code.Script
import QueryEngine.Form.Values

namespace QueryEngine.Form

def named {α : Type} (name : α → String) (all : List α) (word : String) : Option α := all.find? fun a => name a = word

instance : Readable CodeType := ⟨readWord (named CodeType.text [.i1, .i8, .i32, .i64, .ptr])⟩

instance : Readable BinaryOp :=
  ⟨readWord (named BinaryOp.text [.add, .sub, .mul, .sdiv, .srem, .and, .or, .xor, .shl, .lshr])⟩

instance : Readable OverflowOp := ⟨readWord (named OverflowOp.text [.add, .sub, .mul])⟩

instance : Readable Predicate :=
  ⟨readWord (named Predicate.text [.eq, .ne, .slt, .sle, .sgt, .sge, .ult, .ule, .ugt, .uge])⟩

instance : Readable CastOp := ⟨readWord (named CastOp.text [.zext, .sext, .trunc])⟩

instance : Readable Routine := ⟨readWord Routine.named?⟩

instance : Readable Reg := ⟨fun form => Reg.mk <$> read form⟩

instance : Readable Label := ⟨fun form => Label.mk <$> read form⟩

/-- A statement is a list: what it does, then the names and numbers it does it with. Bodies are lists of statements. -/
def readStatement : (limit : Nat) → Form → Result Statement
  | 0, _ => .error "a statement"
  | limit + 1, form => do
    let word (i : Nat) : Result String := form.item i
    let words (i : Nat) : Result (List String) := form.item i
    let body (i : Nat) : Result (List Statement) := do
      let statements : Form ← form.item i
      (← statements.items).mapM (readStatement limit)
    match ← word 0 with
    | "const" => return .const (← word 1) (← form.item 2) (← form.item 3)
    | "bool" => return .constBool (← word 1) (← form.item 2)
    | "null" => return .nullPtr (← word 1)
    | "param" => return .param (← word 1) (← form.item 2)
    | "bin" => return .binary (← word 1) (← form.item 2) (← word 3) (← word 4)
    | "ovf" => return .overflows (← word 1) (← form.item 2) (← word 3) (← word 4)
    | "cmp" => return .compare (← word 1) (← form.item 2) (← word 3) (← word 4)
    | "not" => return .not (← word 1) (← word 2)
    | "select" => return .select (← word 1) (← word 2) (← word 3) (← word 4)
    | "cast" => return .cast (← word 1) (← form.item 2) (← word 3) (← form.item 4)
    | "resize" => return .resize (← word 1) (← word 2) (← form.item 3) (← form.item 4)
    | "load" => return .load (← word 1) (← form.item 2) (← word 3)
    | "store" => return .store (← word 1) (← word 2)
    | "ptradd" => return .ptrAdd (← word 1) (← word 2) (← word 3)
    | "ptroff" => return .ptrOffset (← word 1) (← word 2) (← form.item 3)
    | "slot" => return .stackSlot (← word 1) (← form.item 2)
    | "bytes" => return .constBytes (← word 1) (← word 2) (textBytes (← word 3))
    | "call" => return .call (← form.item 1) (← word 2) (← words 3)
    | "callv" => return .callValue (← form.item 1) (← word 2) (← words 3)
    | "ret" => return .ret (← form.item 1)
    | "handle" => return .tableHandle (← word 1) (← word 2)
    | "layout" => return .tupleLayout (← word 1) (← form.item 2)
    | "columns" => return .columnList (← word 1) (← form.item 2)
    | "block" => return .blockNumber (← word 1)
    | "if" => return .ifThenElse (← word 1) (← body 2) (← words 3) (← body 4) (← words 5) (← words 6)
    | "ifthen" => return .ifThen (← word 1) (← body 2)
    | "while" =>
      return .whileLoop (← words 1) (← words 2) (← body 3) (← word 4) (← body 5) (← words 6) (← words 7)
    | "for" => return .forRange (← word 1) (← word 2) (← word 3) (← body 4)
    | name => .error ("a statement: " ++ name)

instance : Readable Statement := ⟨fun form => readStatement form.depth form⟩

instance : Readable Script where
  read form := do
    return {
      name := ← form.member "name"
      params := ← form.memberOr "params" []
      result := ← form.optional _ "ret"
      body := ← form.member "body" }

def readInstruction (form : Form) : Result Instruction := do
  match ← form.item 1 with
  | "const" => return .const (← form.item 2) (← form.item 3)
  | "param" => return .param (← form.item 2)
  | "bin" => return .binary (← form.item 2) (← form.item 3) (← form.item 4)
  | "ovf" => return .overflows (← form.item 2) (← form.item 3) (← form.item 4)
  | "cmp" => return .compare (← form.item 2) (← form.item 3) (← form.item 4)
  | "select" => return .select (← form.item 2) (← form.item 3) (← form.item 4)
  | "cast" => return .cast (← form.item 2) (← form.item 3) (← form.item 4)
  | "load" => return .load (← form.item 2) (← form.item 3)
  | "store" => return .store (← form.item 2) (← form.item 3)
  | "ptradd" => return .ptrAdd (← form.item 2) (← form.item 3)
  | "call" => return .call (← form.item 2) (← form.item 3)
  | "phi" => return .phi (← form.item 2) (← form.item 3)
  | name => .error ("an instruction: " ++ name)

instance : Readable Line := ⟨fun form => do return ⟨← form.item 0, ← readInstruction form⟩⟩

instance : Readable Terminator where
  read form := do
    match ← form.item 0 with
    | "br" => return .jump (← form.item 1)
    | "condbr" => return .branch (← form.item 1) (← form.item 2) (← form.item 3)
    | "ret" => return .ret (← form.item 1)
    | name => .error ("a terminator: " ++ name)

instance : Readable CodeBlock where
  read form := do
    let lines : List Line ← form.memberOr "code" []
    return { lines := lines.toArray, terminator := ← form.optional _ "end" }

instance : Readable StackSlot := ⟨fun form => do return ⟨← form.item 0, ← form.item 1⟩⟩

instance : Readable Function where
  read form := do
    let blocks : List CodeBlock ← form.member "blocks"
    let types : List CodeType ← form.member "value_types"
    let slots : List StackSlot ← form.memberOr "slots" []
    return {
      name := ← form.member "name"
      params := ← form.memberOr "params" []
      result := ← form.optional _ "ret"
      blocks := blocks.toArray
      types := types.toArray
      slots := slots.toArray }

end QueryEngine.Form
