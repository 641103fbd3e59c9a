import QueryEngine.Form.Code
import QueryEngine.Machine.Calls

namespace QueryEngine.Form

/-- An argument is a number, a record with the text or the bytes it points to, or `$name+offset`. -/
def readArgument (form : Form) : Result CallArgument :=
  match form with
  | record [("s", value)] => do return .bytes (textBytes (← readText value))
  | record [("hex", value)] => do return .bytes (← read value)
  | text s => match s.toList with
    | '$' :: cs =>
      let (name, offset) := (splitFirst '+' cs).getD (cs, ['0'])
      return .result (String.ofList name) ((readDigits offset).getD 0)
    | _ => do return .word (← read form)
  | _ => do return .word (← read form)

instance : Readable CallArgument := ⟨readArgument⟩

instance : Readable RoutineCall := ⟨fun form => do return ⟨← form.item 0, ← form.item 1, ← form.item 2⟩⟩

instance : Writable CallAnswer where
  write answer :=
    let value : Form := match answer.value with
      | none => missing
      | some (.ptr, w) => text (if w = 0 then "null" else "ptr")
      | some (_, w) => write w
    list [value, write answer.live, write answer.overflow]

end QueryEngine.Form
