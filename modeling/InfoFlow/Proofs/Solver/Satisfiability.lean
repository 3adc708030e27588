import InfoFlow.Proofs.Narrowing.Support
import InfoFlow.Proofs.Solver.Neutral
import InfoFlow.Proofs.Solver.Soundness

/-! Flows between leaves are decided by a solve.

A neutral solve never takes the last qualifier of a leaf. If it ends without a
conflict, all constraints are stable, so they support the annotations, and the
greatest qualifiers that the leaves have left satisfy them. If on the other
hand some assignment satisfies the constraints, nothing ever fails. -/

namespace InfoFlow

structure ValueGraph.PlainFlows (graph : ValueGraph) : Prop where
  plain : graph.Plain
  flows : ∀ constraint, constraint ∈ graph.constraints.toList → constraint.isFlow = true

instance (graph : ValueGraph) : Decidable graph.PlainFlows :=
  decidable_of_iff (graph.Plain ∧
      ∀ constraint, constraint ∈ graph.constraints.toList → constraint.isFlow = true)
    ⟨fun both => ⟨both.1, both.2⟩, fun plainFlows => ⟨plainFlows.plain, plainFlows.flows⟩⟩

namespace ValueGraph.PlainFlows

variable {graph : ValueGraph} {constraint : Constraint}

theorem flatFlows (plainFlows : graph.PlainFlows) : graph.FlatFlows where
  wellFormed := plainFlows.plain.wellFormed
  flows := plainFlows.flows
  flat := by
    intro value member
    cases value with
    | leaf content => rfl
    | adapted => cases plainFlows.plain.leaves _ member

theorem isFlow (plainFlows : graph.PlainFlows) (member : constraint ∈ graph.upgraded.toList) :
    constraint.isFlow = true := by
  rcases mem_upgraded member with known | ⟨-, -, relation, -⟩
  · exact plainFlows.flows constraint known
  · rw [Constraint.isFlow, relation]
    rfl

end ValueGraph.PlainFlows

namespace ValueGraph

variable {graph : ValueGraph} {constraint : Constraint}

theorem Plain.sides (plain : graph.Plain) (between : constraint.Between graph.parts) :
    ∃ left right, constraint.left = .leaf left ∧ constraint.right = .leaf right ∧
      left ∈ graph.leafParts ∧ right ∈ graph.leafParts := by
  rcases plain.leaf_of_mem_parts between.1 with ⟨left, leftSide, leftMember⟩
  rcases plain.leaf_of_mem_parts between.2 with ⟨right, rightSide, rightMember⟩
  exact ⟨left, right, leftSide, rightSide, leftMember, rightMember⟩

end ValueGraph

def Assignment.greatest (annotations : Annotations) (leaves : List Leaf) : Assignment :=
  .preferring annotations leaves .top

namespace Solver

variable {solver : Solver} {assignment : Assignment} {constraint : Constraint}

/-- An assignment of one of its qualifiers to each leaf satisfies the
constraints of the graph with their reverse flows. -/
def Solution (solver : Solver) (assignment : Assignment) : Prop :=
  assignment.Within solver.annotations solver.graph.leafParts ∧
    ∀ member, member ∈ solver.graph.upgraded.toList → assignment.Satisfies member

/-! ## No failure where there is a solution -/

theorem Solution.admits (solution : solver.Solution assignment) (plain : solver.graph.Plain) :
    solver.solve.Admits assignment ∧ solver.solve.graph = solver.graph := by
  have outside : FieldsOutsideArrays solver.graph.parts := by
    intro value member isField
    rcases plain.leaf_of_mem_parts member with ⟨leaf, rfl, -⟩
    cases isField
  have start := start_admits plain.wellFormed outside solution.1 solution.2
  have done := (iterate_admits start solver.rounds).1
  have graph := (iterate_consistent plain.wellFormed.coherent solver.rounds).2
  rcases (iterate step solver.rounds solver.start).finish_eq with ⟨log, finished⟩
  rw [done.conflicts, List.foldl_nil] at finished
  rw [solve, finished]
  exact ⟨⟨{ done.consistent with }, done.wellFormed, done.outside, done.within, done.satisfies,
    done.conflicts, done.warned⟩, graph⟩

theorem Solution.not_fails (solution : solver.Solution assignment) (plain : solver.graph.Plain)
    (member : constraint ∈ solver.graph.upgraded.toList) :
    ¬ solver.solve.annotations.Fails constraint := by
  rcases solution.admits plain with ⟨admits, graph⟩
  have present : constraint ∈ solver.solve.constraints.toList :=
    admits.consistent.started (graph.symm ▸ member)
  rcases admits.apply present with ⟨narrowing, applied, -⟩
  rintro ⟨left, right, failed⟩
  rw [failed] at applied
  cases applied

/-! ## The end of a solve -/

theorem solve_settled (plainFlows : solver.graph.PlainFlows)
    (member : constraint ∈ solver.graph.upgraded.toList) :
    solver.solve.annotations.Stable constraint ∨
      (solver.solve.annotations.Fails constraint ∧
        (solver.graph.failureStatus constraint = some .error →
          constraint.key ∈ solver.solve.conflicts.keys)) := by
  have coherent := plainFlows.plain.wellFormed.coherent
  have empty := iterate_waiting coherent
  have consistent := iterate_consistent coherent solver.rounds
  have balanced : (iterate step solver.rounds solver.start).Balanced :=
    iterate_preserves (fun _ _ stepped balanced => Balanced.step balanced stepped) solver.rounds
      (start_balanced plainFlows.flatFlows)
  have present : constraint ∈ (iterate step solver.rounds solver.start).constraints.toList :=
    consistent.1.started (consistent.2.symm ▸ member)
  rcases balanced.finish empty with ⟨conflicts, log, finished, -, exactly⟩
  rw [solve, finished]
  rcases (balanced.settled constraint present).outcome empty with stable | fails
  · exact .inl stable
  · exact .inr ⟨fails, fun error =>
      (exactly constraint present).mpr ⟨fails, consistent.2.symm ▸ error⟩⟩

/-- What does not fail supports the annotations at the end, if immutable leaves
have single qualifiers. -/
theorem supports_of_not_fails (plainFlows : solver.graph.PlainFlows)
    (neutral : solver.policy.bias = .neutral)
    (fixed : ∀ leaf, leaf ∈ solver.graph.leafParts → leaf.isImmutable = true →
      (solver.annotations.get leaf).size = 1)
    (member : constraint ∈ solver.graph.upgraded.toList)
    (succeeds : ¬ solver.solve.annotations.Fails constraint) :
    Family.Supports solver.solve.annotations.get constraint := by
  have plain := plainFlows.plain
  have shrinks := solve_shrinks plain neutral
  rcases plain.sides (plain.wellFormed.coherent.upgraded_between member) with
    ⟨left, right, leftSide, rightSide, leftMember, rightMember⟩
  have fixedAtEnd : ∀ leaf, leaf ∈ solver.graph.leafParts → leaf.isImmutable = true →
      (solver.solve.annotations.get leaf).size = 1 := by
    intro leaf leafMember immutable
    rw [shrinks.frozen leaf leafMember immutable]
    exact fixed leaf leafMember immutable
  rcases solve_settled plainFlows member with stable | ⟨fails, -⟩
  · exact stable.supports (plainFlows.isFlow member) leftSide rightSide
      (fixedAtEnd left leftMember) (fixedAtEnd right rightMember)
  · exact absurd fails succeeds

/-! ## A solution where there is no conflict -/

theorem greatest_satisfies {annotations : Annotations} {leaves : List Leaf} {left right : Leaf}
    (places : SeparatePlaces leaves) (supports : Family.Supports annotations.get constraint)
    (flow : constraint.isFlow = true) (leftSide : constraint.left = .leaf left)
    (rightSide : constraint.right = .leaf right) (leftMember : left ∈ leaves)
    (rightMember : right ∈ leaves) (inhabited : annotations.get left ≠ .empty) :
    (Assignment.greatest annotations leaves).Satisfies constraint := by
  rw [Family.Supports, leftSide, rightSide] at supports
  rw [Assignment.Satisfies, leftSide, rightSide, Assignment.greatest, Assignment.eval,
    Assignment.eval, Assignment.preferring_slot places leftMember,
    Assignment.preferring_slot places rightMember]
  exact Relation.Supported.greatest supports flow inhabited

theorem greatest_solution (plainFlows : solver.graph.PlainFlows)
    (neutral : solver.policy.bias = .neutral)
    (inhabited : ∀ leaf, leaf ∈ solver.graph.leafParts → solver.annotations.get leaf ≠ .empty)
    (supports : ∀ member, member ∈ solver.graph.upgraded.toList →
      Family.Supports solver.solve.annotations.get member) :
    solver.Solution (.greatest solver.solve.annotations solver.graph.leafParts) := by
  have plain := plainFlows.plain
  have places := plain.wellFormed.coherent.places
  have shrinks := solve_shrinks plain neutral
  have left := fun leaf member => shrinks.inhabited leaf member (inhabited leaf member)
  constructor
  · intro leaf member
    have chosen : (Assignment.greatest solver.solve.annotations solver.graph.leafParts).Within
        solver.solve.annotations solver.graph.leafParts :=
      Assignment.preferring_within places fun leaf member =>
        QualifierSet.exists_mem (left leaf member)
    exact shrinks.subset leaf member _ (chosen leaf member)
  · intro member present
    rcases plain.sides (plain.wellFormed.coherent.upgraded_between present) with
      ⟨leftLeaf, rightLeaf, leftSide, rightSide, leftMember, rightMember⟩
    exact greatest_satisfies places (supports member present) (plainFlows.isFlow present) leftSide
      rightSide leftMember rightMember (left leftLeaf leftMember)

/-- Let all constraints of a graph be flows between leaves and all failures
errors, let every leaf start with a qualifier, and with just one if it is
immutable. Then a neutral solve ends without a conflict exactly if there is a
solution. If so, the greatest qualifiers that are left to the leaves are one. -/
theorem solve_decides (solver : Solver) (plainFlows : solver.graph.PlainFlows)
    (neutral : solver.policy.bias = .neutral)
    (inhabited : ∀ leaf, leaf ∈ solver.graph.leafParts → solver.annotations.get leaf ≠ .empty)
    (fixed : ∀ leaf, leaf ∈ solver.graph.leafParts → leaf.isImmutable = true →
      (solver.annotations.get leaf).size = 1)
    (errors : ∀ member, member ∈ solver.graph.upgraded.toList →
      solver.graph.failureStatus member = some .error) :
    (solver.solve.conflicts.toList = [] ↔ ∃ assignment, solver.Solution assignment) ∧
      (solver.solve.conflicts.toList = [] →
        let greatest := Assignment.greatest solver.solve.annotations solver.graph.leafParts
        (∀ leaf, leaf ∈ solver.graph.leafParts →
          greatest (Annotations.slot leaf) ∈ solver.solve.annotations.get leaf ∧
            ∀ qualifier, qualifier ∈ solver.solve.annotations.get leaf →
              qualifier.isSubtype (greatest (Annotations.slot leaf)) = true) ∧
          solver.Solution greatest) := by
  have solution : solver.solve.conflicts.toList = [] →
      solver.Solution (.greatest solver.solve.annotations solver.graph.leafParts) := by
    intro none
    refine greatest_solution plainFlows neutral inhabited fun member present => ?_
    refine supports_of_not_fails plainFlows neutral fixed present fun fails => ?_
    rcases solve_settled plainFlows present with stable | ⟨-, reported⟩
    · exact fails.not_stable stable
    · have conflict := reported (errors member present)
      rw [ConstraintSet.keys, none] at conflict
      cases conflict
  refine ⟨⟨fun none => ⟨_, solution none⟩, ?_⟩, fun none => ⟨fun leaf member => ?_, solution none⟩⟩
  · rintro ⟨assignment, solved⟩
    exact (solved.admits plainFlows.plain).1.conflicts
  · have left := (solve_shrinks plainFlows.plain neutral).inhabited leaf member
      (inhabited leaf member)
    rcases QualifierSet.exists_mem left with ⟨qualifier, carried⟩
    have chosen : Assignment.greatest solver.solve.annotations solver.graph.leafParts
        (Annotations.slot leaf) = (solver.solve.annotations.get leaf).prefer .top :=
      Assignment.preferring_slot plainFlows.plain.wellFormed.coherent.places member
    rw [chosen]
    exact ⟨QualifierSet.prefer_mem carried .top,
      fun other otherMember => QualifierSet.isSubtype_prefer_top otherMember⟩

/-- A secret that is passed to a method, which returns what it stored of it. -/
def passedSecret : ValueGraph :=
  let method : Method := { declaringClass := "App", name := "pass" }
  let secret : Value := .leaf
    (LeafSpec.leaf { identifier := "secret", kind := .constant, declared := .only .sensitive } 0 0)
  let parameter : Value := .leaf (LeafSpec.leaf
    { identifier := "parameter", kind := .parameter, method := some method } 0 1)
  let stored : Value := .leaf (LeafSpec.leaf
    { identifier := "stored", method := some method } 0 2)
  let result : Value := .leaf (LeafSpec.leaf
    { identifier := "result", kind := .result, method := some method } 0 3)
  { values := [secret, parameter, stored, result]
    constraints := .ofList
      [.inferred secret parameter [], .inferred parameter stored [],
        { relation := .equality, left := result, right := stored }] }

theorem solve_decides_passedSecret :
    passedSecret.PlainFlows ∧
      (∀ leaf, leaf ∈ passedSecret.leafParts → ({} : Annotations).get leaf ≠ .empty) ∧
      (∀ leaf, leaf ∈ passedSecret.leafParts → leaf.isImmutable = true →
        (({} : Annotations).get leaf).size = 1) ∧
      (∀ member, member ∈ passedSecret.upgraded.toList →
        passedSecret.failureStatus member = some .error) ∧
      (solve { graph := passedSecret }).conflicts.toList = [] ∧
      Solution { graph := passedSecret }
        (.greatest (solve { graph := passedSecret }).annotations passedSecret.leafParts) := by
  have plainFlows : passedSecret.PlainFlows := by decide
  have inhabited : ∀ leaf, leaf ∈ passedSecret.leafParts →
      ({} : Annotations).get leaf ≠ .empty := by decide
  have fixed : ∀ leaf, leaf ∈ passedSecret.leafParts → leaf.isImmutable = true →
      (({} : Annotations).get leaf).size = 1 := by decide
  have errors : ∀ member, member ∈ passedSecret.upgraded.toList →
      passedSecret.failureStatus member = some .error := by decide
  have none : (solve { graph := passedSecret }).conflicts.toList = [] := by decide
  have decided := solve_decides { graph := passedSecret } plainFlows rfl inhabited fixed errors
  exact ⟨plainFlows, inhabited, fixed, errors, none, (decided.2 none).2⟩

end Solver

end InfoFlow
