namespace QueryEngine

inductive Align where
  | left
  | right
deriving Repr, DecidableEq

def padded (align : Align) (width : Nat) (text : String) : String :=
  let fill := String.ofList (List.replicate (width - text.length) ' ')
  match align with
  | .left => text ++ fill
  | .right => fill ++ text

def hexDigit (n : Nat) : Char :=
  if n < 10 then Char.ofNat ('0'.toNat + n) else Char.ofNat ('a'.toNat + n - 10)

def hexText (n : Nat) : String := String.ofList (Nat.toDigits 16 n)

end QueryEngine
