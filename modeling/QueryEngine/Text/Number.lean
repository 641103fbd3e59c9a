import QueryEngine.Text.Blank

namespace QueryEngine

def digitValue? (c : Char) : Option Nat :=
  if '0' ≤ c ∧ c ≤ '9' then some (c.toNat - '0'.toNat) else none

/-- The number the decimal digits `cs` continue, when `n` has been read already. -/
def readDigitsFrom (n : Nat) : List Char → Option Nat
  | [] => some n
  | c :: rest => (digitValue? c).bind fun d => readDigitsFrom (10 * n + d) rest

def readDigits : List Char → Option Nat
  | [] => none
  | cs => readDigitsFrom 0 cs

/-- Decimal digits after at most one plus sign, for a number below `limit`. -/
def readNat (limit : Nat) (cs : List Char) : Option Nat :=
  let digits := match cs with
    | '+' :: rest => rest
    | _ => cs
  (readDigits digits).filter (· < limit)

def readSigned : List Char → Option Int
  | '+' :: rest => (readDigits rest).map Int.ofNat
  | '-' :: rest => (readDigits rest).map fun n => -Int.ofNat n
  | cs => (readDigits cs).map Int.ofNat

/-- Decimal digits after at most one sign, for a number from `lo` to `hi`. -/
def readInt (lo hi : Int) (cs : List Char) : Option Int := (readSigned cs).filter fun n => lo ≤ n && n ≤ hi

def int64Min : Int := -9223372036854775808

def int64Max : Int := 9223372036854775807

def fitsInt64 (n : Int) : Bool := int64Min ≤ n && n ≤ int64Max

def fitsInt32 (n : Int) : Bool := -2147483648 ≤ n && n ≤ 2147483647

def int64? (n : Int) : Option Int64 := if fitsInt64 n then some (Int64.ofInt n) else none

def readInt64 (cs : List Char) : Option Int := readInt int64Min int64Max cs

def readUInt32 (cs : List Char) : Option Nat := readNat UInt32.size cs

def readUInt64 (cs : List Char) : Option Nat := readNat UInt64.size cs

/-- `n` in decimal, filled up with zeros on the left to `width` characters. -/
def zeroPadded (width n : Nat) : String :=
  let digits := toString n
  String.ofList (List.replicate (width - digits.length) '0') ++ digits

/-- Like `zeroPadded`, for a signed number; the sign takes up one of the `width` characters. -/
def zeroPaddedInt (width : Nat) (n : Int) : String :=
  if n < 0 then "-" ++ zeroPadded (width - 1) n.natAbs else zeroPadded width n.natAbs

end QueryEngine
