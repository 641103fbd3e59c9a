import QueryEngine.Text.Number
import QueryEngine.Word

namespace QueryEngine

/-- Structured text. Values, code and plans are written down in it. -/
inductive Form where
  | missing
  | flag (value : Bool)
  | number (n : Int)
  | text (s : String)
  | list (items : List Form)
  | record (members : List (String × Form))

namespace Form

instance : Inhabited Form := ⟨missing⟩

mutual

def depth : Form → Nat
  | list items => depthAll items + 1
  | _ => 1

def depthAll : List Form → Nat
  | [] => 0
  | form :: forms => max form.depth (depthAll forms)

end

abbrev Result (α : Type) := Except String α

class Readable (α : Type) where
  read : Form → Result α

class Writable (α : Type) where
  write : α → Form

export Readable (read)
export Writable (write)

variable {α β : Type}

def items : Form → Result (List Form)
  | list items => .ok items
  | _ => .error "a list"

def member? (form : Form) (name : String) : Option Form :=
  match form with
  | record members => members.lookup name
  | _ => none

def item [Readable α] (form : Form) (i : Nat) : Result α := do read (((← form.items)[i]?).getD missing)

def member [Readable α] (form : Form) (name : String) : Result α := read ((form.member? name).getD missing)

def optional (α : Type) [Readable α] (form : Form) (name : String) : Result (Option α) :=
  match form.member? name with
  | none | some missing => .ok none
  | some found => some <$> read found

def memberOr [Readable α] (form : Form) (name : String) (fallback : α) : Result α := do
  return (← form.optional α name).getD fallback

def readText : Form → Result String
  | text s => .ok s
  | _ => .error "a text"

def readInt : Form → Result Int
  | number n => .ok n
  | text s => match readSigned s.toList with
    | some n => .ok n
    | none => .error "a number"
  | _ => .error "a number"

def readWord (find : String → Option α) (form : Form) : Result α := do
  let s ← readText form
  match find s with
  | some a => .ok a
  | none => .error s

/-- The name of an attribute or a register, which may be a number. -/
def readName : Form → Result String
  | text s => .ok s
  | number n => .ok (toString n)
  | _ => .error "a name"

instance : Readable Form := ⟨.ok⟩
instance : Readable String := ⟨readText⟩
instance : Readable Int := ⟨readInt⟩
instance : Readable Word := ⟨fun form => Word.ofInt <$> readInt form⟩
/-- Numbers are those of a word. -/
instance : Readable Nat := ⟨fun form => do return (Word.ofInt (← readInt form)).toNat⟩

instance : Readable Bool where
  read
    | flag value => .ok value
    | _ => .error "a flag"

instance [Readable α] : Readable (List α) := ⟨fun form => do (← form.items).mapM read⟩

instance [Readable α] : Readable (Option α) where
  read
    | missing => .ok none
    | form => some <$> read form

instance [Readable α] [Readable β] : Readable (α × β) := ⟨fun form => do return (← form.item 0, ← form.item 1)⟩

instance : Writable Form := ⟨id⟩
instance : Writable String := ⟨text⟩
instance : Writable Int := ⟨number⟩
instance : Writable Nat := ⟨fun n => number n⟩
instance : Writable Bool := ⟨flag⟩
/-- Words are written as text, since readers may keep numbers in fewer bits. -/
instance : Writable Word := ⟨fun w => text (toString w.toNat)⟩
instance [Writable α] : Writable (List α) := ⟨fun items => list (items.map write)⟩
instance [Writable α] : Writable (Array α) := ⟨fun items => list (items.toList.map write)⟩

instance [Writable α] : Writable (Option α) where
  write
    | some a => write a
    | none => missing

instance [Writable α] [Writable β] : Writable (α × β) := ⟨fun pair => list [write pair.1, write pair.2]⟩

end Form

end QueryEngine
