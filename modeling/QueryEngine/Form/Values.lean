import QueryEngine.Attribute
import QueryEngine.Form.Basic
import QueryEngine.Row
import QueryEngine.Types.Reading

namespace QueryEngine.Form

instance : Readable ValueType := ⟨readWord ValueType.ofText?⟩

instance : Writable ValueType := ⟨fun ty => text ty.text⟩

def readRepeated (form : Form) : Result String := do
  let piece : String ← form.item 0
  return String.join (List.replicate (← form.item 1) piece)

/-- A value is a record with one member, whose name tells what kind of value it is. -/
def readDatum : Form → Result Datum
  | missing => .ok .null
  | record [("bool", value)] => Datum.bool <$> read value
  | record [("int", value)] => do return .integer (Int32.ofInt (← readInt value))
  | record [("num", value)] => do return .numeric (Int64.ofInt (← value.item 0)) (UInt8.ofNat (← value.item 1))
  | record [("char", value)] => Datum.char <$> read value
  | record [("str", value)] => Datum.varchar <$> read value
  | record [("date", value)] => do return .date (Int32.ofInt (← readInt value))
  | record [("ts", value)] => do return .timestamp (Int64.ofInt (← readInt value))
  | record [("charx", value)] => Datum.char <$> readRepeated value
  | record [("strx", value)] => Datum.varchar <$> readRepeated value
  | _ => .error "a value"

def writeDatum : Datum → Form
  | .null => missing
  | .bool value => record [("bool", flag value)]
  | .integer n => record [("int", number n.toInt)]
  | .numeric raw precision => record [("num", list [text (toString raw.toInt), number precision.toNat])]
  | .char s => record [("char", text s)]
  | .varchar s => record [("str", text s)]
  | .date day => record [("date", number day.toInt)]
  | .timestamp second => record [("ts", text (toString second.toInt))]

instance : Readable Datum := ⟨readDatum⟩

instance : Writable Datum := ⟨writeDatum⟩

instance : Writable Attribute := ⟨fun a => text a.text⟩

instance : Writable AttributeSet := ⟨fun set => text set.text⟩

def hexDigits : List Char := "0123456789abcdef".toList

def readHexDigit (c : Char) : Result Nat :=
  match hexDigits.findIdx? fun digit => digit = c.toLower with
  | some n => .ok n
  | none => .error "a hexadecimal digit"

def readHexPairs : List Char → Result Bytes
  | [] => .ok []
  | [_] => .error "a pair of hexadecimal digits"
  | high :: low :: rest => do
    let byte := 16 * (← readHexDigit high) + (← readHexDigit low)
    return UInt8.ofNat byte :: (← readHexPairs rest)

instance : Readable Bytes := ⟨fun form => do readHexPairs (← readText form).toList⟩

def hex (bytes : Bytes) : Form :=
  text (String.ofList (bytes.flatMap fun b => [hexDigit (b.toNat / 16), hexDigit (b.toNat % 16)]))

end QueryEngine.Form
