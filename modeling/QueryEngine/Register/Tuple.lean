import QueryEngine.Register.Held

namespace QueryEngine.Held

open Emit

def storeFields (address : Reg) : List Held → List TupleField → Emit Unit
  | value :: values, field :: fields => do
    let target ← ptrOffset address field.offset
    let flag ← field.indicator.mapM fun i => ptrOffset address i
    value.store field.ty target flag
    storeFields address values fields
  | _, _ => return

def storeTuple (layout : TupleLayout) (address : Reg) (values : List Held) : Emit Unit := do
  if layout.fields.length ≠ values.length then
    failValue (.tupleStore values.length (TupleLayout.typeName layout.types))
  storeFields address values layout.fields

def loadTuple (layout : TupleLayout) (address : Reg) : Emit (List Held) :=
  layout.fields.mapM fun field => do
    let source ← ptrOffset address field.offset
    let indicator ← field.indicator.mapM fun i => do
      let flag ← ptrOffset address i
      Emit.load .i8 flag
    load field.ty source indicator

def hashRest (h : Reg) : List Held → Emit Reg
  | [] => return h
  | value :: values => do
    let next ← value.hash
    hashRest (← combine h next) values

/-- The hash of the first value, with the one of each following value folded in. -/
def hashTuple : List Held → Emit Reg
  | [] => const .i64 0
  | value :: values => do hashRest (← value.hash) values

def equalsFrom (all : Reg) : List Held → List Held → Emit Reg
  | a :: first, b :: second => do
    let same ← a.equals b
    equalsFrom (← binary .and all same) first second
  | _, _ => return all

def equalsTuple (first second : List Held) : Emit Reg := do
  if first.length ≠ second.length then failValue (.tupleSizes first.length second.length)
  equalsFrom (← constBool true) first second

end QueryEngine.Held
