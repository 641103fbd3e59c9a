import QueryEngine.Word

namespace QueryEngine.Hash

def mixFirst : Word := 0xff51afd7ed558ccd

def mixSecond : Word := 0xc4ceb9fe1a85ec53

def combineSeed : Word := 0x9e3779b97f4a7c15

/-- The hash of NULL, whatever its type. -/
def ofNull : Word := 0x2d358dccaa6c78a5

def xorShift (w : Word) : Word := w ^^^ (w >>> 33)

def mix (w : Word) : Word := xorShift (xorShift (xorShift w * mixFirst) * mixSecond)

def combine (first second : Word) : Word :=
  first ^^^ (second + combineSeed + (first <<< 6) + (first >>> 2))

def absorb (h : Word) (b : UInt8) : Word := (h ^^^ b.toUInt64) * 0x100000001b3

/-- The hash of a byte string: every byte is absorbed in turn, and the result is scrambled. -/
def ofBytes (bytes : Bytes) : Word := mix (bytes.foldl absorb 0xcbf29ce484222325)

end QueryEngine.Hash
