import QueryEngine.Row
import QueryEngine.Storage.Codec

namespace QueryEngine

/-- Where one value of a tuple lies. The byte at `indicator` is not zero when the value is NULL. -/
structure TupleField where
  ty : ValueType
  offset : Nat
  indicator : Option Nat
deriving Repr, DecidableEq

/-- How a group of values lies in memory: each at its natural alignment, in order. -/
structure TupleLayout where
  fields : List TupleField
  size : Nat
  align : Nat
deriving Repr, DecidableEq

def alignTo (n align : Nat) : Nat := (n + align - 1) / align * align

namespace TupleLayout

def hasIndicator (encoding : NullEncoding) (ty : ValueType) : Bool :=
  encoding = .indicator && ty.nullable && !ty.isUnknown

/-- The field of type `ty` at the first fitting place from `start` on. -/
def fieldFrom (encoding : NullEncoding) (start : Nat) (ty : ValueType) : TupleField :=
  let offset := alignTo start ty.alignment
  ⟨ty, offset, if hasIndicator encoding ty then some (offset + ty.size) else none⟩

def fieldEnd (field : TupleField) : Nat :=
  match field.indicator with
  | some i => i + 1
  | none => field.offset + field.ty.size

/-- The fields from `start` on, and the first byte after them. -/
def fieldsFrom (encoding : NullEncoding) : (start : Nat) → List ValueType → List TupleField × Nat
  | start, [] => ([], start)
  | start, ty :: types =>
    let field := fieldFrom encoding start ty
    let (fields, stop) := fieldsFrom encoding (fieldEnd field) types
    (field :: fields, stop)

def make (encoding : NullEncoding) (types : List ValueType) : TupleLayout :=
  let (fields, stop) := fieldsFrom encoding 0 types
  let align := types.foldl (fun align ty => max align ty.alignment) 1
  { fields, size := alignTo stop align, align }

def types (layout : TupleLayout) : List ValueType := layout.fields.map TupleField.ty

def typeName (types : List ValueType) : String :=
  "tuple(" ++ String.intercalate ", " (types.map ValueType.text) ++ ")"

/-- A field with what the name of its type tells: not whether a NULL literal may be NULL. -/
def named (field : TupleField) : TupleField :=
  { field with ty := if field.ty.isUnknown then .unknown else field.ty }

/-- Whether tuples lie alike: values of types with the same names at the same places. -/
def shares (layout other : TupleLayout) : Bool := layout.fields.map named = other.fields.map named

def largestSize : Nat := 1 <<< 20

def decodeField (encoding : NullEncoding) (read : MemoryReader) (a : Word) (field : TupleField) : Datum :=
  if field.ty.isUnknown then .null
  else if field.indicator.any fun i => read (a + UInt64.ofNat i) 1 ≠ [0] then .null
  else Codec.decode encoding read field.ty (read (a + UInt64.ofNat field.offset) field.ty.size)

def decode (encoding : NullEncoding) (read : MemoryReader) (a : Word) (layout : TupleLayout) : Row :=
  layout.fields.map (decodeField encoding read a)

end TupleLayout

end QueryEngine
