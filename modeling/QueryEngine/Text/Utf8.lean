namespace QueryEngine

abbrev Bytes := List UInt8

def textBytes (text : String) : Bytes := text.toByteArray.toList

def byteLength (text : String) : Nat := text.utf8ByteSize

/-- The least and greatest second byte after the lead byte, and how many bytes the character has in all. -/
def leadByte? (b : UInt8) : Option (Nat × UInt8 × UInt8) :=
  if 0xc2 ≤ b ∧ b ≤ 0xdf then some (2, 0x80, 0xbf)
  else if b = 0xe0 then some (3, 0xa0, 0xbf)
  else if b = 0xed then some (3, 0x80, 0x9f)
  else if 0xe1 ≤ b ∧ b ≤ 0xef then some (3, 0x80, 0xbf)
  else if b = 0xf0 then some (4, 0x90, 0xbf)
  else if 0xf1 ≤ b ∧ b ≤ 0xf3 then some (4, 0x80, 0xbf)
  else if b = 0xf4 then some (4, 0x80, 0x8f)
  else none

def isTailByte (b : UInt8) : Bool := 0x80 ≤ b && b ≤ 0xbf

/-- How many bytes at the start of `rest` can continue the character that starts with `lead`. -/
def tailLength (lead : UInt8) (rest : Bytes) : Nat :=
  match leadByte? lead, rest with
  | some (size, least, greatest), second :: others =>
    if least ≤ second ∧ second ≤ greatest then 1 + ((others.takeWhile isTailByte).take (size - 2)).length else 0
  | _, _ => 0

def replacementChar : Char := '�'

def codePoint (lead : UInt8) (tail : Bytes) : Nat :=
  let high := match tail.length with
    | 0 => lead.toNat
    | 1 => lead.toNat % 32
    | 2 => lead.toNat % 16
    | _ => lead.toNat % 8
  tail.foldl (fun n b => 64 * n + b.toNat % 64) high

/-- The character at the start of the bytes and the bytes after it. A lead byte without all of its tail becomes one
replacement character together with the tail bytes it has. -/
def readChar (lead : UInt8) (rest : Bytes) : Char × Bytes :=
  if lead < 0x80 then (Char.ofNat lead.toNat, rest)
  else
    let taken := tailLength lead rest
    if (leadByte? lead).any fun lead => taken + 1 == lead.1 then
      (Char.ofNat (codePoint lead (rest.take taken)), rest.drop taken)
    else (replacementChar, rest.drop taken)

theorem readChar_rest_length (lead : UInt8) (rest : Bytes) : (readChar lead rest).2.length ≤ rest.length := by
  unfold readChar
  split
  · exact Nat.le_refl _
  · dsimp only
    split <;> simp

def readChars : Bytes → List Char
  | [] => []
  | lead :: rest =>
    (readChar lead rest).1 :: readChars (readChar lead rest).2
termination_by bytes => bytes.length
decreasing_by
  have := readChar_rest_length lead rest
  simp only [List.length_cons]
  omega

/-- The text that bytes encode. Bytes that encode none are read character by character, with a replacement character
for each part that makes no character. -/
def bytesText (bytes : Bytes) : String :=
  match String.fromUTF8? bytes.toByteArray with
  | some text => text
  | none => String.ofList (readChars bytes)

end QueryEngine
