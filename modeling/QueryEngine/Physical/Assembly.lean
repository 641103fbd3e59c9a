import QueryEngine.Physical.Produce

namespace QueryEngine

/-- An operator with all that is below it, and the number of the operator it hands its rows to. -/
structure AssemblyNode where
  tree : Physical
  parent : Option Nat := none

/-- Operators that are put together one by one and named by their numbers. -/
structure Assembly where
  nodes : Array AssemblyNode := #[]
  root : Option Nat := none

namespace Assembly

def size (s : Assembly) : Nat := s.nodes.size

def attach (s : Assembly) (child : Nat) : Assembly :=
  { s with nodes := s.nodes.modify child fun node => { node with parent := some s.size } }

/-- Makes an operator a child of the next one to be added. -/
def adopt (s : Assembly) (child : Nat) : Except FlowProblem (Physical × Assembly) :=
  match s.nodes[child]? with
  | some node => if node.parent.isNone then .ok (node.tree, s.attach child) else .error (.child child)
  | none => .error (.child child)

def push (s : Assembly) (tree : Physical) : Assembly := { s with nodes := s.nodes.push { tree } }

def addOver (s : Assembly) (child : Nat) (make : Physical → Physical) : Assembly × Except FlowProblem Physical :=
  match s.adopt child with
  | .error problem => (s, .error problem)
  | .ok (tree, s) => (s.push (make tree), .ok (make tree))

/-- Adds an operator over two inputs. The first one stays adopted when the second one cannot be. -/
def addOverTwo (s : Assembly) (left right : Nat) (make : Physical → Physical → Physical) :
    Assembly × Except FlowProblem Physical :=
  match s.adopt left with
  | .error problem => (s, .error problem)
  | .ok (first, s) => match s.adopt right with
    | .error problem => (s, .error problem)
    | .ok (second, s) => (s.push (make first second), .ok (make first second))

def failFlow (problem : FlowProblem) : Emit Unit := Emit.fail (.flow problem)

/-- Where the rows of an operator go when it is emitted by itself: to the operators above it, none of which has been
started. -/
def above (s : Assembly) : (limit id : Nat) → Emit.Sink
  | 0, id => fun _ => failFlow (.noOperator id)
  | limit + 1, id => fun row =>
    match s.nodes[id]?.bind AssemblyNode.parent with
    | none => failFlow (.noParent id)
    | some parent => match s.nodes[parent]? with
      | none => failFlow (.noOperator parent)
      | some node => match node.tree with
        | .select _ predicate => Emit.filterRow predicate (s.above limit parent) row
        | .map _ mappings => Emit.mapRow mappings (s.above limit parent) row
        | .collect _ selection => Emit.collectRow selection row
        | .join .. => failFlow (.joinNotStarted parent)
        | .group .. => failFlow (.groupNotStarted parent)
        | .print .. | .update .. | .delete .. => failFlow (.notStarted parent)
        | .scan .. | .insert .. => failFlow (.noInput node.tree.name)

def emit (s : Assembly) : Emit Unit :=
  match s.root with
  | none => failFlow .noRoot
  | some root => match s.nodes[root]? with
    | none => failFlow (.noOperator root)
    | some node => node.tree.produce (s.above s.size root)

end Assembly

end QueryEngine
