import QueryEngine.Word

namespace QueryEngine

inductive CodeType where
  | i1
  | i8
  | i32
  | i64
  | ptr
deriving Repr, DecidableEq

namespace CodeType

def bits : CodeType → Nat
  | i1 => 1
  | i8 => 8
  | i32 => 32
  | i64 | ptr => 64

def storeSize : CodeType → Nat
  | i1 | i8 => 1
  | i32 => 4
  | i64 | ptr => 8

/-- The word a register of the type holds for the low bits of `w`: 0 or 1 for a single bit, else sign-extended. -/
def normalize (ty : CodeType) (w : Word) : Word :=
  match ty with
  | i1 => w &&& 1
  | i8 => w.toUInt8.toInt8.toInt64.toUInt64
  | i32 => w.toUInt32.toInt32.toInt64.toUInt64
  | i64 | ptr => w

def zeroExtend (ty : CodeType) (w : Word) : Word :=
  match ty with
  | i1 => w &&& 1
  | i8 => w.toUInt8.toUInt64
  | i32 => w.toUInt32.toUInt64
  | i64 | ptr => w

def signed (ty : CodeType) (w : Word) : Int := (ty.normalize w).signed

def fits (ty : CodeType) (n : Int) : Bool :=
  match ty with
  | i1 => 0 ≤ n && n ≤ 1
  | i8 => -128 ≤ n && n ≤ 127
  | i32 => -2147483648 ≤ n && n ≤ 2147483647
  | i64 | ptr => -9223372036854775808 ≤ n && n ≤ 9223372036854775807

def text : CodeType → String
  | i1 => "i1"
  | i8 => "i8"
  | i32 => "i32"
  | i64 => "i64"
  | ptr => "ptr"

end CodeType

end QueryEngine
