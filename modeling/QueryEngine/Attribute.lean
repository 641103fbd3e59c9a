import QueryEngine.Types.Basic

namespace QueryEngine

/-- One column of the rows that flow through a plan. Attributes are told apart by their number; the type is kept beside
it. -/
structure Attribute where
  id : Nat
  ty : ValueType
deriving Repr, DecidableEq

def Attribute.text (a : Attribute) : String := "%" ++ toString a.id

inductive AttributeKind where
  /-- A column of the table that scan number `scan` reads, or its row id. -/
  | column (scan : Nat) (table : String) (index : Option Nat) (name : String)
  | value (name : Option String)
deriving Repr, DecidableEq

structure Attributes where
  kinds : Array AttributeKind := #[]
  scans : Nat := 0

namespace Attributes

def size (attributes : Attributes) : Nat := attributes.kinds.size

def create (attributes : Attributes) (kind : AttributeKind) (ty : ValueType) : Attribute × Attributes :=
  (⟨attributes.size, ty⟩, { attributes with kinds := attributes.kinds.push kind })

def newScan (attributes : Attributes) : Nat × Attributes :=
  (attributes.scans, { attributes with scans := attributes.scans + 1 })

def column (attributes : Attributes) (scan : Nat) (table : String) (index : Nat) (name : String) (ty : ValueType) :
    Attribute × Attributes :=
  attributes.create (.column scan table (some index) name) ty

def rowId (attributes : Attributes) (scan : Nat) (table : String) : Attribute × Attributes :=
  attributes.create (.column scan table none "tid") .integer

def value (attributes : Attributes) (name : Option String) (ty : ValueType) : Attribute × Attributes :=
  attributes.create (.value name) ty

/-- `table.column` for columns, the given name or the number for values. -/
def describe (attributes : Attributes) (a : Attribute) : String :=
  match attributes.kinds[a.id]? with
  | some (.column _ table _ name) => table ++ "." ++ name
  | some (.value (some name)) => name
  | _ => a.text

end Attributes

/-- A set of attributes, in the order of their numbers. -/
structure AttributeSet where
  items : List Attribute := []
deriving Repr, DecidableEq

namespace AttributeSet

def empty : AttributeSet := {}

def contains (set : AttributeSet) (a : Attribute) : Bool := set.items.any fun other => other.id = a.id

def insertSorted (a : Attribute) : List Attribute → List Attribute
  | [] => [a]
  | other :: rest =>
    if a.id < other.id then a :: other :: rest
    else if a.id = other.id then other :: rest
    else other :: insertSorted a rest

def insert (set : AttributeSet) (a : Attribute) : AttributeSet := ⟨insertSorted a set.items⟩

def ofList (items : List Attribute) : AttributeSet := items.foldl insert empty

def union (first second : AttributeSet) : AttributeSet := second.items.foldl insert first

def inter (first second : AttributeSet) : AttributeSet := ⟨first.items.filter second.contains⟩

def diff (first second : AttributeSet) : AttributeSet := ⟨first.items.filter fun a => !second.contains a⟩

def isSubset (first second : AttributeSet) : Bool := first.items.all second.contains

def isEmpty (set : AttributeSet) : Bool := set.items.isEmpty

def text (set : AttributeSet) : String :=
  "\x7b" ++ String.intercalate ", " (set.items.map Attribute.text) ++ "\x7d"

end AttributeSet

end QueryEngine
