import InfoFlow.ConstraintSet

/-! Diagrams of constraints.

A diagram is a list of statements. It has one edge for each distinct
constraint, in order of first occurrence, and one node for each value that is
a side of one, numbered in order of first use. Every node is stated before the
first edge that uses it. -/

namespace InfoFlow

/-- A statement of a diagram. An edge joins nodes by their numbers and says
whether its constraint was derived. -/
inductive Diagram.Statement
  | node (number : Nat) (label : String)
  | edge (source target : Nat) (relation : Relation) (derived : Bool)
deriving DecidableEq, Repr

structure Diagram where
  title : String
  statements : List Diagram.Statement

namespace Diagram

/-- A diagram in progress: the values that have nodes, in the order of their
numbers, the constraints that have edges, and the statements so far. -/
structure Sketch where
  nodes : List Value := []
  drawn : ConstraintSet := {}
  statements : List Statement := []

def Sketch.number (sketch : Sketch) (value : Value) : Nat :=
  sketch.nodes.findIdx value.same

def Sketch.place (annotations : Annotations) (sketch : Sketch) (value : Value) : Sketch :=
  if sketch.nodes.any value.same then sketch
  else
    { sketch with
      nodes := sketch.nodes ++ [value]
      statements := sketch.statements ++
        [.node sketch.nodes.length (annotations.describe value)] }

def Sketch.draw (annotations : Annotations) (sketch : Sketch) (constraint : Constraint) : Sketch :=
  if sketch.drawn.contains constraint then sketch
  else
    let placed := (sketch.place annotations constraint.left).place annotations constraint.right
    { placed with
      drawn := placed.drawn.add constraint
      statements := placed.statements ++
        [.edge (placed.number constraint.left) (placed.number constraint.right)
          constraint.relation constraint.isDerived] }

def ofConstraints (annotations : Annotations) (constraints : List Constraint) (title : String) :
    Diagram :=
  ⟨title, (constraints.foldl (Sketch.draw annotations) {}).statements⟩

end Diagram

end InfoFlow
