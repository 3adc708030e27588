import InfoFlow.ClassHierarchy
import InfoFlow.ConstraintSet

/-! Value graphs: the values of a program, the constraints between them, and
what an analysis asks about the program around them.

A graph numbers its values in the order in which they are made. It makes one
leaf for each identifier and one adaptation for each declaration seen through
each context. -/

namespace InfoFlow

/-- How a constraint that fails is treated: an error is a conflict, a warning
is only reported. -/
inductive FailureStatus
  | error
  | warning
deriving DecidableEq, Repr

structure ReadOnly where
  covers : String → Bool

def ReadOnly.everything : ReadOnly where
  covers _ := true

def ReadOnly.only (identifiers : List String) : ReadOnly where
  covers identifier := decide (identifier ∈ identifiers)

/-- What is asked for when a leaf is made. A missing name is the
identifier. -/
structure LeafSpec where
  identifier : String
  kind : ValueKind := .variable
  declared : QualifierSet := .all
  method : Option Method := none
  enclosingClass : Option String := none
  type : Option StaticType := none
  name : Option String := none

def LeafSpec.leaf (spec : LeafSpec) (owner id : Nat) : Leaf where
  owner := owner
  id := id
  identifier := spec.identifier
  kind := spec.kind
  declared := spec.declared
  method := spec.method
  enclosingClass := spec.enclosingClass.or (spec.method.map Method.declaringClass)
  type := spec.type
  name := spec.name.getD spec.identifier

/-- The values of a program and what is known about it. `owner` is the
number of the graph, `values` stand in the order of their numbers, and the
source level is what an eliminated source or sink falls back to. -/
structure ValueGraph where
  owner : Nat := 0
  values : List Value := []
  constraints : ConstraintSet := {}
  hierarchy : ClassHierarchy := {}
  libraryMethods : List Method := []
  readOnly : ReadOnly := .only []
  sourceLevel : QualifierSet := .all
  failurePolicy : Option (Constraint → Option FailureStatus) := none

namespace ValueGraph

/-! ## Values -/

def size (graph : ValueGraph) : Nat :=
  graph.values.length

def get? (graph : ValueGraph) (id : Int) : Option Value :=
  if id < 0 then none else graph.values[id.toNat]?

def leaves (graph : ValueGraph) : List Leaf :=
  graph.values.filterMap fun
    | .leaf content => some content
    | .adapted _ _ _ _ _ => none

def lookup? (graph : ValueGraph) (identifier : String) : Option Leaf :=
  graph.leaves.find? fun leaf => decide (leaf.identifier = identifier)

/-- The leaf with the identifier of a specification. It is made if there is
none; what else the specification says counts only then. -/
def intern (graph : ValueGraph) (spec : LeafSpec) : ValueGraph × Value :=
  match graph.lookup? spec.identifier with
  | some known => (graph, .leaf known)
  | none =>
      let made := Value.leaf (spec.leaf graph.owner graph.size)
      ({ graph with values := graph.values ++ [made] }, made)

def isAdaptationOf (adaptation : Adaptation) (declaration context : Value) : Value → Bool
  | .leaf _ => false
  | .adapted other _ _ otherDeclaration otherContext =>
      decide (other = adaptation) && otherDeclaration.same declaration &&
        otherContext.same context

def adapt (graph : ValueGraph) (adaptation : Adaptation) (declaration context : Value) :
    ValueGraph × Value :=
  match graph.values.find? (isAdaptationOf adaptation declaration context) with
  | some known => (graph, known)
  | none =>
      let made := Value.adapted adaptation graph.owner graph.size declaration context
      ({ graph with values := graph.values ++ [made] }, made)

/-! ## Constraints -/

inductive AdditionError
  | foreign (value : Value)
  | unspecified
deriving DecidableEq, Repr

def AdditionError.message : AdditionError → String
  | foreign value => value.display ++ " does not belong to this value graph"
  | unspecified => Relation.unknown

def owns (graph : ValueGraph) (value : Value) : Bool :=
  decide (value.owner = graph.owner) && decide (value.id < graph.size)

def add (graph : ValueGraph) (relation : Relation) (left right : Value) :
    Except AdditionError ValueGraph :=
  if relation = .unspecified then .error .unspecified
  else if !graph.owns left then .error (.foreign left)
  else if !graph.owns right then .error (.foreign right)
  else .ok { graph with constraints := graph.constraints.add { relation, left, right } }

/-! ## The program around the values -/

def supertypes (graph : ValueGraph) (origin : Option String) : List String :=
  match origin with
  | none => []
  | some origin => graph.hierarchy.supertypes origin

def isLibraryMethod (graph : ValueGraph) (method : Option Method) : Bool :=
  method.any fun known => decide (known ∈ graph.libraryMethods)

/-- Whether nothing is ever written through a value. What an adaptation
declares decides, one step down. -/
def isReadOnly (graph : ValueGraph) (value : Value) : Bool :=
  value.declaration.isNull || graph.readOnly.covers value.declaration.identifier

/-- How a failing constraint is treated. Unless a policy decides, a constraint
within library code is a warning, because it cannot be mended there. -/
def failureStatus (graph : ValueGraph) (constraint : Constraint) : Option FailureStatus :=
  match graph.failurePolicy with
  | some policy => policy constraint
  | none =>
      if graph.isLibraryMethod constraint.left.innermostDeclaration.method &&
          graph.isLibraryMethod constraint.right.innermostDeclaration.method then
        some .warning
      else some .error

/-- Two values can be connected if they live in the same method, or in methods
of one name where one class is a superclass of the other. Literals have no
connections. -/
def canConnect (graph : ValueGraph) (left right : Value) : Bool :=
  if left.kind = .literal ∨ right.kind = .literal then false
  else
    match left.method, right.method with
    | some leftMethod, some rightMethod =>
        if leftMethod = rightMethod then true
        else if leftMethod.name = rightMethod.name then
          right.enclosingClass.any (fun name =>
            decide (name ∈ graph.supertypes left.enclosingClass)) ||
          left.enclosingClass.any fun name =>
            decide (name ∈ graph.supertypes right.enclosingClass)
        else false
    | _, _ => false

/-! ## Extent -/

/-- How many values can occur in an analysis of the graph: its own and all
that they are built from. -/
def extent (graph : ValueGraph) : Nat :=
  (graph.values.flatMap Value.parts).length

end ValueGraph

end InfoFlow
