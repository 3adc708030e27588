import InfoFlow.ReferenceIndex
import InfoFlow.ValueGraph

/-! Linear flows that follow from an accepted flow.

For a flow `left <: right` the rules are:

* *field read*, `left` is a field `f` of `x`: if `f` is polymorphic or `x` an
  array, then `x <: right`; and for every `r <: left`, `r <: right`;
* *field write*, `right` is a field `f` of `x`: if `f` is polymorphic or `x`
  an array, then `left <: x`; and for every `right <: r`, `left <: r`;
* *plain flow*: parameters, results and receivers that reach `left` also reach
  `right`, and if `left` is one of them it reaches all that `right` reaches;
* *bridging*: if a parameter flows to a result, then what flows into the
  parameter of a call flows to what the result of the same call flows to.

Only values that can be connected are ever joined. -/

namespace InfoFlow.Derivation

def lesser (constraint : Constraint) (value : Value) : Value :=
  if constraint.relation = .equality ∧ constraint.left.same value then constraint.right
  else constraint.left

def greater (constraint : Constraint) (value : Value) : Value :=
  if constraint.relation = .equality ∧ constraint.right.same value then constraint.left
  else constraint.right

/-- The context that a field is seen through to, if its declaration can only
be polymorphic or the context is an array. -/
def throughField? (annotations : Annotations) : Value → Option Value
  | .adapted .field _ _ declaration context =>
      if annotations.view declaration = .only .poly || context.isArray then some context
      else none
  | _ => none

/-- The flows into the left side of a constraint, each followed by the
constraint itself. A value to skip is given by a test. -/
def joinedBelow (index : ReferenceIndex) (constraint : Constraint) (skip : Value → Bool) :
    List Constraint :=
  (index.superSide constraint.left).filterMap fun lower =>
    let source := lesser lower constraint.left
    if source.same constraint.right || source.isMethodAdapted || skip source then none
    else some (.inferred source constraint.right [lower, constraint])

def joinedAbove (index : ReferenceIndex) (constraint : Constraint) : List Constraint :=
  (index.subSide constraint.right).filterMap fun upper =>
    let target := greater upper constraint.right
    if constraint.left.same target || target.isMethodAdapted then none
    else some (.inferred constraint.left target [constraint, upper])

/-- The flows from what enters a parameter to what leaves a result of the same
call. -/
def bridges (index : ReferenceIndex) (constraint : Constraint) : List Constraint :=
  let calls := (index.adaptedFromDeclaration constraint.left).filter Value.isMethodAdapted
  let returns := (index.adaptedFromDeclaration constraint.right).filter Value.isMethodAdapted
  calls.flatMap fun entry =>
    (returns.filter fun exit => entry.context.same exit.context).flatMap fun exit =>
      (index.superSide entry).flatMap fun lower =>
        (index.subSide exit).map fun upper =>
          .inferred (lesser lower entry) (greater upper exit) [lower, constraint, upper]

def candidates (graph : ValueGraph) (annotations : Annotations) (index : ReferenceIndex)
    (constraint : Constraint) : List Constraint :=
  let left := constraint.left
  let right := constraint.right
  if left.isFieldAdapted then
    ((throughField? annotations left).map fun context =>
        Constraint.inferred context right [constraint]).toList ++
      joinedBelow index constraint fun _ => false
  else if right.isFieldAdapted then
    ((throughField? annotations right).map fun context =>
        Constraint.inferred left context [constraint]).toList ++
      joinedAbove index constraint
  else if !left.isMethodAdapted && !right.isMethodAdapted && graph.canConnect left right then
    joinedBelow index constraint (fun source => !source.flowsThroughCalls) ++
      (if left.flowsThroughCalls then joinedAbove index constraint else []) ++
      (if left.flowsThroughCalls && right.flowsThroughCalls then bridges index constraint else [])
  else []

structure Search where
  pending : List Constraint
  found : ConstraintSet
  index : ReferenceIndex

def Search.accept (graph : ValueGraph) (existing : ConstraintSet) (search : Search)
    (proposal : Constraint) : Search :=
  if existing.contains proposal || search.found.contains proposal ||
      !graph.canConnect proposal.left proposal.right then search
  else
    { pending := search.pending ++ [proposal]
      found := search.found.add proposal
      index := search.index.register proposal }

def Search.step (graph : ValueGraph) (annotations : Annotations) (existing : ConstraintSet)
    (search : Search) : Option Search :=
  match search.pending with
  | [] => none
  | current :: rest =>
      let proposals := candidates graph annotations search.index current
      some (proposals.foldl (accept graph existing) { search with pending := rest })

/-- Every constraint that follows from the given one and is not among the
existing ones, with the index extended by them. What is found is used for
further derivation. At most one constraint is found for each pair of the
values at hand, which bounds the rounds. -/
def derive (graph : ValueGraph) (annotations : Annotations) (index : ReferenceIndex)
    (constraint : Constraint) (existing : ConstraintSet) : ConstraintSet × ReferenceIndex :=
  if constraint.relation = .subtype then
    let extent := index.extent [constraint]
    let done := iterate (Search.step graph annotations existing) (extent * extent + 2)
      ⟨[constraint], {}, index⟩
    (done.found, done.index)
  else ({}, index)

/-! ## Closure -/

/-- The derivation from all members of a growing set: the members still to be
used, the set and the index. -/
structure Closing where
  pending : List Constraint
  members : ConstraintSet
  index : ReferenceIndex

def Closing.step (graph : ValueGraph) (annotations : Annotations) (closing : Closing) :
    Option Closing :=
  match closing.pending with
  | [] => none
  | current :: rest =>
      let (found, index) := derive graph annotations closing.index current closing.members
      some
        { pending := rest ++ found.toList
          members := closing.members.addAll found.toList
          index := index }

def close (graph : ValueGraph) (annotations : Annotations) (index : ReferenceIndex)
    (constraints : ConstraintSet) : ConstraintSet × ReferenceIndex :=
  let extent := index.extent constraints.toList
  let done := iterate (Closing.step graph annotations)
    (constraints.size + extent * extent + 1) ⟨constraints.toList, constraints, index⟩
  (done.members, done.index)

end InfoFlow.Derivation
