import QueryEngine.Word

namespace QueryEngine

/-- The four parts of the address space: the texts of the database, the literals of a program, the columns of tables,
and what a run asks for. -/
inductive Arena where
  | text
  | literal
  | column
  | scratch
deriving Repr, DecidableEq

namespace Arena

def code : Arena → Nat
  | text => 0
  | literal => 1
  | column => 2
  | scratch => 3

def ofCode : Nat → Arena
  | 0 => text
  | 1 => literal
  | 2 => column
  | _ => scratch

/-- Bytes between the starts of two regions. What a run asks for comes out of one region. -/
def span : Arena → Nat
  | text => 1 <<< 20
  | literal => 1 <<< 32
  | column => 1 <<< 38
  | scratch => 1 <<< 61

end Arena

/-- A byte of memory: the offset in one of the regions of an arena. -/
structure Place where
  arena : Arena
  region : Nat
  offset : Nat
deriving Repr, DecidableEq

def arenaSpan : Nat := 1 <<< 62

/-- Nothing lies below the first region of an arena: address 0 is the null address. -/
def Place.address (place : Place) : Word :=
  UInt64.ofNat (place.arena.code * arenaSpan + (place.region + 1) * place.arena.span + place.offset)

def regionAddress (arena : Arena) (region : Nat) : Word := Place.address ⟨arena, region, 0⟩

def placeAt? (a : Word) : Option Place :=
  let arena := Arena.ofCode (a.toNat / arenaSpan)
  let rest := a.toNat % arenaSpan
  match rest / arena.span with
  | 0 => none
  | region + 1 => some ⟨arena, region, rest % arena.span⟩

end QueryEngine
