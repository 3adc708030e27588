import InfoFlow.Iteration
import InfoFlow.ConstraintSet

/-! Which constraints mention a value, directly or through adaptations.

The index holds the registered constraints and the adaptations that occur in
them. A subtype constraint is found below its left side and above its right
side; an equality counts in both directions. An adaptation is found under its
declaration, and under its context unless that is a placeholder.

What is found is a set. It is listed in the order of registration here, but any
other order would do as well: what is proved of an index, and with its help, looks
at membership alone. -/

namespace InfoFlow

/-- The constraints that were registered and the adaptations that are sides of
them, each once. They are kept, and found, in the order of registration; any
other order would do. -/
structure ReferenceIndex where
  registered : ConstraintSet := {}
  adaptations : List Value := []

namespace ReferenceIndex

def note (adaptations : List Value) (value : Value) : List Value :=
  if value.isLeaf || adaptations.any value.same then adaptations else adaptations ++ [value]

def register (index : ReferenceIndex) (constraint : Constraint) : ReferenceIndex where
  registered := index.registered.add constraint
  adaptations := note (note index.adaptations constraint.left) constraint.right

def registerAll (index : ReferenceIndex) (constraints : List Constraint) : ReferenceIndex :=
  constraints.foldl register index

def ofList (constraints : List Constraint) : ReferenceIndex :=
  registerAll {} constraints

def subSide (index : ReferenceIndex) (value : Value) : List Constraint :=
  index.registered.toList.filter fun constraint =>
    match constraint.relation with
    | .subtype => constraint.left.same value
    | .equality => constraint.left.same value || constraint.right.same value
    | .unspecified | .unequality => false

def superSide (index : ReferenceIndex) (value : Value) : List Constraint :=
  index.registered.toList.filter fun constraint =>
    match constraint.relation with
    | .subtype => constraint.right.same value
    | .equality => constraint.left.same value || constraint.right.same value
    | .unspecified | .unequality => false

def hasDeclaration (declaration : Value) : Value → Bool
  | .leaf _ => false
  | .adapted _ _ _ other _ => other.same declaration

/-- Whether a value is an adaptation to the given context, and the context is
no placeholder. -/
def hasContext (context : Value) : Value → Bool
  | .leaf _ => false
  | .adapted _ _ _ _ other => other.same context && !isSynthetic other.identifier

def adaptedFromDeclaration (index : ReferenceIndex) (declaration : Value) : List Value :=
  index.adaptations.filter (hasDeclaration declaration)

def adaptedFromContext (index : ReferenceIndex) (context : Value) : List Value :=
  index.adaptations.filter (hasContext context)

/-! ## Mentions -/

structure Search where
  pending : List Value
  reached : List Value

def Search.visit (search : Search) (value : Value) : Search :=
  if search.reached.any value.same then search
  else ⟨search.pending ++ [value], search.reached ++ [value]⟩

def Search.step (index : ReferenceIndex) (search : Search) : Option Search :=
  match search.pending with
  | [] => none
  | current :: rest =>
      some ((index.adaptedFromDeclaration current ++ index.adaptedFromContext current).foldl
        visit ⟨rest, search.reached⟩)

/-- A value and the known adaptations that are built from it, through known
adaptations. Each adaptation is followed at most once. -/
def builtFrom (index : ReferenceIndex) (value : Value) : List Value :=
  (iterate (Search.step index) (index.adaptations.length + 1) ⟨[value], [value]⟩).reached

def flowsAt (value : Value) (constraint : Constraint) : Bool :=
  constraint.isFlow && (constraint.left.same value || constraint.right.same value)

/-- Every registered flow that mentions a value, directly or through an
adaptation built from it, in whatever order. -/
def referencing (index : ReferenceIndex) (value : Value) : List Constraint :=
  let reached := index.builtFrom value
  index.registered.toList.filter fun constraint =>
    reached.any fun member => flowsAt member constraint

/-! ## Extent -/

/-- How many values can be sides of what is derived from the registered
constraints and the given ones: their sides and all that these are built
from. -/
def extent (index : ReferenceIndex) (constraints : List Constraint) : Nat :=
  ((index.registered.toList ++ constraints).flatMap fun constraint =>
    constraint.left.parts ++ constraint.right.parts).length

end ReferenceIndex

end InfoFlow
