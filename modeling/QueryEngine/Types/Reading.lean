import QueryEngine.Types.Basic

namespace QueryEngine

def readArguments (name cs : List Char) : Option (List Nat) := do
  let rest := trimBlanks (← afterHead? name cs)
  let inner ← beforeTail? [')'] (← afterHead? ['('] rest)
  (splitAll ',' inner).mapM fun argument => readUInt32 (trimBlanks argument)

def Shape.read (cs : List Char) : Option Shape :=
  let is (name : String) : Bool := cs = name.toList
  let starts (name : String) : Bool := (afterHead? name.toList cs).isSome
  let arguments (name : String) : Option (List Nat) := readArguments name.toList cs
  if is "bool" || is "boolean" then some .bool
  else if is "int" || is "integer" then some .integer
  else if is "date" then some .date
  else if is "timestamp" then some .timestamp
  else if starts "numeric" then
    match arguments "numeric" with
    | some [length, precision] =>
      if length ≤ numericDigits.toNat ∧ precision ≤ length then
        some (.numeric (UInt8.ofNat length) (UInt8.ofNat precision))
      else none
    | _ => none
  else if starts "varchar" then
    match arguments "varchar" with
    | some [capacity] => if capacity < UInt16.size then some (.varchar (UInt16.ofNat capacity)) else none
    | _ => none
  else if starts "char" then
    match arguments "char" with
    | some [length] => if length < UInt16.size then some (.char (UInt16.ofNat length)) else none
    | _ => none
  else none

def Shape.ofText? (cs : List Char) : Option Shape :=
  let arguments (name : String) : Option (List Nat) := readArguments name.toList cs
  if cs = "unknown".toList then some .unknown
  else if cs = "bool".toList then some .bool
  else if cs = "integer".toList then some .integer
  else if cs = "date".toList then some .date
  else if cs = "timestamp".toList then some .timestamp
  else match arguments "numeric", arguments "char", arguments "varchar" with
    | some [length, precision], _, _ => some (.numeric (UInt8.ofNat length) (UInt8.ofNat precision))
    | _, some [length], _ => some (.char (UInt16.ofNat length))
    | _, _, some [capacity] => some (.varchar (UInt16.ofNat capacity))
    | _, _, _ => none

/-- The type with this text. Sizes are not checked. -/
def ValueType.ofText? (text : String) : Option ValueType :=
  match beforeTail? " null".toList text.toList with
  | some cs => (Shape.ofText? cs).map fun shape => ⟨shape, true⟩
  | none => (Shape.ofText? text.toList).map fun shape => if shape = .unknown then .unknown else ⟨shape, false⟩

/-- Reads names such as `integer`, `numeric(10,2)`, `varchar(20) not null` and `date null`, in any case. A type is
nullable unless it says otherwise. -/
def ValueType.read (text : String) : Except TypeError ValueType :=
  let lower := (trimBlanks text.toList).map Char.toLower
  let (base, nullable) := match beforeTail? "not null".toList lower with
    | some base => (trimBlanks base, false)
    | none => match beforeTail? "null".toList lower with
      | some base => (trimBlanks base, true)
      | none => (lower, true)
  match Shape.read base with
  | some shape => .ok ⟨shape, nullable⟩
  | none => .error (.unreadable text)

end QueryEngine
