import QueryEngine.Datum
import QueryEngine.Storage.TextHeap

namespace QueryEngine

/-- How NULL is kept in memory: beside the value, or as one of its bit patterns. -/
inductive NullEncoding where
  | indicator
  | sentinel
deriving Repr, DecidableEq

abbrev MemoryReader := Word → Nat → Bytes

namespace Codec

/-- The bytes of a field whose first part is `first`. The second part, a length, is zero. -/
def wordBytes (ty : ValueType) (first : Word) : Bytes :=
  Word.bytes (min ty.size 8) first ++ List.replicate (ty.size - 8) 0

/-- The bytes of a NULL: zeros beside an indicator, else the sentinel of the type. -/
def encodeNull (encoding : NullEncoding) (ty : ValueType) : Bytes :=
  match encoding with
  | .indicator => List.replicate ty.size 0
  | .sentinel => wordBytes ty ty.sentinel

/-- The bytes of a value that has been coerced to `ty`. The bytes of a string go into the heap. -/
def encode (encoding : NullEncoding) (d : Datum) (ty : ValueType) (heap : TextHeap) :
    Checked DatumError (Bytes × TextHeap) :=
  match d, ty.shape with
  | .null, _ => .ok (encodeNull encoding ty, heap)
  | .bool value, .bool => .ok (Word.bytes 1 (Word.ofBool value), heap)
  | .integer n, .integer | .date n, .date => .ok (Word.bytes 4 (Word.ofInt n.toInt), heap)
  | .numeric n _, .numeric _ _ | .timestamp n, .timestamp => .ok (Word.bytes 8 n.toUInt64, heap)
  | .char text, .char _ | .char text, .varchar _ | .varchar text, .char _ | .varchar text, .varchar _ => do
    let (a, heap) ← Checked.orTrap (heap.intern? (textBytes text))
    .ok (Word.bytes 8 a ++ Word.bytes 8 (UInt64.ofNat (byteLength text)), heap)
  | _, _ => do
    let shown ← Checked.orTrap d.text?
    Checked.fail (.mismatch shown ty)

def isSentinel (ty : ValueType) (bytes : Bytes) : Bool :=
  bytes.take 8 = Word.bytes (min ty.size 8) ty.sentinel

def int32 (bytes : Bytes) : Int32 := (Word.ofBytes (bytes.take 4)).toUInt32.toInt32

def int64 (bytes : Bytes) : Int64 := (Word.ofBytes (bytes.take 8)).toInt64

/-- The value that bytes hold. Under sentinels the sentinel of a nullable type is NULL. -/
def decode (encoding : NullEncoding) (read : MemoryReader) (ty : ValueType) (bytes : Bytes) : Datum :=
  if encoding = .sentinel ∧ ty.nullable ∧ isSentinel ty bytes then .null
  else
    let text : String :=
      bytesText (read (Word.ofBytes (bytes.take 8)) (Word.ofBytes ((bytes.drop 8).take 8)).toNat)
    match ty.shape with
    | .unknown => .null
    | .bool => .bool (bytes.headD 0 ≠ 0)
    | .integer => .integer (int32 bytes)
    | .date => .date (int32 bytes)
    | .numeric _ precision => .numeric (int64 bytes) precision
    | .timestamp => .timestamp (int64 bytes)
    | .char _ => .char text
    | .varchar _ => .varchar text

end Codec

end QueryEngine
