import InfoFlow.ValueGraph

/-! Flows that also run backwards.

What flows into a value that is written through later can flow back, so a
subtype constraint counts as an equality unless one of its sides is read-only
or it lies between parameters and results of library methods. -/

namespace InfoFlow.ValueGraph

def withinLibraryCall (graph : ValueGraph) (constraint : Constraint) : Bool :=
  constraint.left.isParameterOrResult && constraint.right.isParameterOrResult &&
    graph.isLibraryMethod constraint.left.method && graph.isLibraryMethod constraint.right.method

def flowsBack (graph : ValueGraph) (constraint : Constraint) : Bool :=
  decide (constraint.relation = .subtype) &&
    !(graph.isReadOnly constraint.left || graph.isReadOnly constraint.right) &&
    !graph.withinLibraryCall constraint

def withReverse (graph : ValueGraph) (constraint : Constraint) : List Constraint :=
  if graph.flowsBack constraint then
    [constraint, .inferred constraint.right constraint.left [constraint]]
  else [constraint]

/-- A set with the reverse of each member whose flow runs backwards too. -/
def withReverseFlows (graph : ValueGraph) (constraints : ConstraintSet) : ConstraintSet :=
  .ofList (constraints.toList.flatMap graph.withReverse)

end InfoFlow.ValueGraph
