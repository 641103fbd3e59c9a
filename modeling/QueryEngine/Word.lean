import QueryEngine.Text.Utf8

namespace QueryEngine

/-- What a register or eight bytes of memory hold: an integer, or the address of a byte. -/
abbrev Word := UInt64

namespace Word

/-- The `count` low bytes, least significant first. -/
def bytes : (count : Nat) → Word → Bytes
  | 0, _ => []
  | count + 1, w => w.toUInt8 :: bytes count (w >>> 8)

/-- The word whose low bytes these are, least significant first; its other bytes are zero. -/
def ofBytes : Bytes → Word
  | [] => 0
  | b :: rest => b.toUInt64 ||| (ofBytes rest <<< 8)

def signed (w : Word) : Int := w.toInt64.toInt

/-- Two's complement. -/
def ofInt (n : Int) : Word := (Int64.ofInt n).toUInt64

def ofBool (b : Bool) : Word := if b then 1 else 0

def signedText (w : Word) : String := toString w.signed

end Word

end QueryEngine
