import QueryEngine.Storage.Address

namespace QueryEngine

/-- Strings at fixed addresses. A string stays where it is for as long as the heap lives. -/
structure TextHeap where
  arena : Arena
  texts : Array ByteArray := #[]

namespace TextHeap

def size (heap : TextHeap) : Nat := heap.texts.size

/-- Copies the bytes into the heap and gives their address, which is never the null address. An empty string takes one
byte. -/
def intern (heap : TextHeap) (bytes : Bytes) : Word × TextHeap :=
  let stored := if bytes.isEmpty then [0] else bytes
  (regionAddress heap.arena heap.size, { heap with texts := heap.texts.push stored.toByteArray })

def hasRoom (heap : TextHeap) (bytes : Bytes) : Bool :=
  (heap.size + 2) * heap.arena.span ≤ arenaSpan && max 1 bytes.length ≤ heap.arena.span

def intern? (heap : TextHeap) (bytes : Bytes) : Option (Word × TextHeap) :=
  if heap.hasRoom bytes then some (heap.intern bytes) else none

def byteAt (heap : TextHeap) (region offset : Nat) : UInt8 :=
  match heap.texts[region]? with
  | some text => if bound : offset < text.size then text[offset] else 0
  | none => 0

def setByte (heap : TextHeap) (region offset : Nat) (b : UInt8) : TextHeap :=
  { heap with texts := heap.texts.modify region fun text =>
    if bound : offset < text.size then text.set offset b else text }

/-- The bytes of memory from an address on, as far as they belong to the heap. -/
def read (heap : TextHeap) (a : Word) (count : Nat) : Bytes :=
  (List.range count).map fun i =>
    match placeAt? (a + UInt64.ofNat i) with
    | some place => if place.arena = heap.arena then heap.byteAt place.region place.offset else 0
    | none => 0

end TextHeap

end QueryEngine
