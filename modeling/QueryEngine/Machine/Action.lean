import QueryEngine.Machine.State

namespace QueryEngine

inductive RoutineError where
  | unknownObject (a : Word)
  | wrongObject (a : Word) (expected : ObjectKind)
  | unknownTable (handle : Word)
  | unknownLayout (id : Word)
  | unknownColumnList (id : Word)
  | unknownColumn (table : String) (column : Word)
  | database (cause : DatabaseError)
deriving Repr, DecidableEq

def addressText (a : Word) : String := "0x" ++ hexText a.toNat

def RoutineError.message : RoutineError → String
  | unknownObject a => "No runtime object at address " ++ addressText a ++ "."
  | wrongObject a expected => "Object at address " ++ addressText a ++ " is not a " ++ expected.text ++ "."
  | unknownTable handle => "No table with handle " ++ toString handle.toNat ++ "."
  | unknownLayout id => "No tuple layout " ++ toString id.toNat ++ "."
  | unknownColumnList id => "No column list " ++ toString id.toNat ++ "."
  | unknownColumn table column => "Table " ++ table ++ " has no column " ++ toString column.toNat ++ "."
  | database cause => cause.message

/-- What a routine does to the machine. What it has done stays when it fails. -/
abbrev Action := EStateM (Fault RoutineError) Machine

def sizeLimit : Nat := 1 <<< 64

namespace Action

variable {α : Type}

def fail (cause : RoutineError) : Action α := throw (.error cause)

def trap : Action α := throw .trap

def orTrap : Option α → Action α
  | some a => pure a
  | none => trap

def orFail (cause : RoutineError) : Option α → Action α
  | some a => pure a
  | none => fail cause

def ofChecked : Checked DatabaseError α → Action α
  | .ok a => pure a
  | .error fault => throw (fault.map .database)

def argument (args : List Word) (i : Nat) : Action Word := orTrap args[i]?

def print (text : String) : Action Word := do
  modify fun m => m.print text
  return 0

def newRegion (size : Nat) : Action Word := do
  let (a, m) ← orTrap ((← get).newRegion? size)
  set m
  return a

/-- Makes an object live under an address that no live object has. -/
def place (a : Word) (object : MachineObject) : Action Unit :=
  modify fun m => { m with objects := (a, object) :: m.objects }

/-- Makes an object live under a fresh address, at which `size` bytes are free to use. -/
def adopt (object : MachineObject) (size : Nat := 0) : Action Word := do
  let a ← newRegion size
  place a object
  return a

def object (a : Word) : Action MachineObject := do orFail (.unknownObject a) ((← get).objects.lookup a)

def remove (a : Word) : Action Unit :=
  modify fun m => { m with objects := m.objects.filter fun entry => entry.1 ≠ a }

def pool (a : Word) : Action PoolMemory := do
  match ← object a with
  | .pool memory => return memory
  | _ => fail (.wrongObject a .pool)

def chainTable (a : Word) : Action NodeTable := do
  match ← object a with
  | .chainTable table => return table
  | _ => fail (.wrongObject a .chainTable)

def joinList (a : Word) : Action NodeList := do
  match ← object a with
  | .joinList list => return list
  | _ => fail (.wrongObject a .joinList)

def joinTable (a : Word) : Action (Array Word) := do
  match ← object a with
  | .joinTable buckets => return buckets
  | _ => fail (.wrongObject a .joinTable)

def newPool (blockSize : Nat) : Action PoolMemory := orTrap (Machine.newPool? blockSize)

def takeFrom (memory : PoolMemory) (n : Nat) : Action (Word × PoolMemory) := do
  let (a, memory, m) ← orTrap ((← get).takeFrom? memory n)
  set m
  return (a, memory)

end Action

end QueryEngine
