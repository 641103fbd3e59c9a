import QueryEngine.Code.Builder
import QueryEngine.Hash

namespace QueryEngine.Emit

def xorShift (value : Reg) : Emit Reg := do
  let amount ← const .i64 33
  let shifted ← binary .lshr value amount
  binary .xor value shifted

def mix (value : Reg) : Emit Reg := do
  let k ← xorShift value
  let first ← constWord Hash.mixFirst
  let k ← binary .mul k first
  let k ← xorShift k
  let second ← constWord Hash.mixSecond
  let k ← binary .mul k second
  xorShift k

def combine (first second : Reg) : Emit Reg := do
  let seed ← constWord Hash.combineSeed
  let six ← const .i64 6
  let two ← const .i64 2
  let left ← binary .shl first six
  let right ← binary .lshr first two
  let sum ← binary .add second seed
  let sum ← binary .add sum left
  let sum ← binary .add sum right
  binary .xor first sum

end QueryEngine.Emit
