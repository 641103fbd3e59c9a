namespace QueryEngine

/-- A growing array. Its capacity doubles when it is full, and is halved when the elements that are left fit half of
it. A slot behind the last element keeps what was last written to it. -/
structure Growable (α : Type) where
  slots : Array α
  size : Nat
deriving Repr, DecidableEq

namespace Growable

variable {α : Type}

def leastCapacity : Nat := 2

def empty [Inhabited α] : Growable α where
  slots := Array.replicate leastCapacity default
  size := 0

instance [Inhabited α] : Inhabited (Growable α) := ⟨empty⟩

def capacity (v : Growable α) : Nat := v.slots.size

def isEmpty (v : Growable α) : Bool := v.size = 0

/-- The slots after one more has been made sure of. -/
def roomier [Inhabited α] (v : Growable α) : Array α :=
  if v.size = v.capacity then v.slots ++ Array.replicate v.capacity default else v.slots

def push [Inhabited α] (v : Growable α) (a : α) : Growable α where
  slots := v.roomier.setIfInBounds v.size a
  size := v.size + 1

def pop (v : Growable α) : Growable α :=
  if v.size = 0 then v
  else
    let half := v.capacity / 2
    { slots := if v.size - 1 ≤ half ∧ leastCapacity ≤ half then v.slots.take half else v.slots
      size := v.size - 1 }

def get? (v : Growable α) (i : Nat) : Option α := if i < v.size then v.slots[i]? else none

def set (v : Growable α) (i : Nat) (a : α) : Growable α :=
  if i < v.size then { v with slots := v.slots.setIfInBounds i a } else v

def map (f : α → α) (v : Growable α) : Growable α :=
  { v with slots := v.slots.mapIdx fun i a => if i < v.size then f a else a }

def front? (v : Growable α) : Option α := v.get? 0

def back? (v : Growable α) : Option α := v.get? (v.size - 1)

def toList (v : Growable α) : List α := v.slots.toList.take v.size

end Growable

end QueryEngine
