import InfoFlow.Proofs.Reordering
import InfoFlow.Proofs.Solver.Satisfiability

/-! What a solve of flows between leaves computes.

A family that the constraints at the start support is also supported by all
that is derived, because support passes along chains of flows. So no turn takes
anything away from such a family, and it lies within the annotations at the
end. If there is a solution, nothing fails, and the annotations at the end are
such a family themselves, the greatest one. There is only one greatest family,
so the order in which constraints were added does not matter, although it
decides which constraints are derived and when they are served. -/

namespace InfoFlow

/-! ## Derived flows -/

namespace Derivation

variable {graph : ValueGraph} {annotations : Annotations} {index : ReferenceIndex}
  {constraint : Constraint} {family : Family}

def Sustains (graph : ValueGraph) (family : Family) (constraint : Constraint) : Prop :=
  constraint.Between graph.parts ∧ family.Supports constraint

theorem Sustains.conveyed {source target : Value} (sustains : Sustains graph family constraint)
    (conveys : constraint.Conveys source target) :
    Relation.Supported .subtype (family.view source) (family.view target) := by
  rcases conveys with ⟨flow, rfl, rfl⟩ | ⟨relation, rfl, rfl⟩
  · exact Relation.Supported.forth sustains.2 flow
  · have supports := sustains.2
    rw [Family.Supports, relation] at supports
    exact supports.back

theorem Joined.supported {source target : Value}
    (joined : Joined annotations index constraint source target) (plain : graph.Plain)
    (registered : ∀ known, known ∈ index.registered.toList → Sustains graph family known)
    (noted : index.adaptations ⊆ graph.parts) (flow : constraint.relation = .subtype)
    (sustains : Sustains graph family constraint) :
    Relation.Supported .subtype (family.view source) (family.view target) := by
  have numbered := plain.wellFormed.numbered
  have between := sustains.1
  have ordered := sustains.conveyed (.inl ⟨congrArg Relation.isFlow flow, rfl, rfl⟩)
  cases joined with
  | read through =>
      rcases plain.leaf_of_mem_parts between.1 with ⟨leaf, side, -⟩
      rw [side] at through
      cases through
  | written through =>
      rcases plain.leaf_of_mem_parts between.2 with ⟨leaf, side, -⟩
      rw [side] at through
      cases through
  | @below lower known =>
      have lowerSustains := registered lower (List.mem_filter.mp known).1
      have entering := conveys_lesser numbered lowerSustains.1 between.1 known
      exact (lowerSustains.conveyed entering).trans ordered
  | @above upper known =>
      have upperSustains := registered upper (List.mem_filter.mp known).1
      have leaving := conveys_greater numbered upperSustains.1 between.2 known
      exact ordered.trans (upperSustains.conveyed leaving)
  | @bridged entry exit lower upper entered entryMethod =>
      have entryMember : entry ∈ graph.parts := noted (List.mem_filter.mp entered).1
      rcases plain.leaf_of_mem_parts entryMember with ⟨leaf, rfl, -⟩
      cases entryMethod

theorem handedOn_sustains (annotations : Annotations) (plain : graph.Plain) :
    HandedOn graph annotations graph.parts (Sustains graph family) where
  sides := fun _ sustains => sustains.1
  rules := by
    intro index constraint registered noted flow sustains proposal member
    have joined := joined_of_mem_candidates member
    have between := joined.2.sides graph.closed_parts
      (fun known present => (registered known present).1) sustains.1
    refine ⟨between, ?_⟩
    rw [Family.Supports, joined.1]
    exact joined.2.supported plain registered noted flow sustains

end Derivation

theorem ValueGraph.Reordered.plainFlows {graph other : ValueGraph}
    (reordered : graph.Reordered other) (plainFlows : graph.PlainFlows) : other.PlainFlows where
  plain :=
    { wellFormed := reordered.wellFormed plainFlows.plain.wellFormed
      leaves := reordered.values.symm ▸ plainFlows.plain.leaves }
  flows := by
    intro constraint present
    rcases reordered.back constraint present with ⟨twin, twinPresent, alike⟩
    rw [Constraint.isFlow, alike.relation]
    exact plainFlows.flows twin twinPresent

namespace Solver

variable {solver next : Solver} {family : Family} {constraint : Constraint}

/-! ## Families within the annotations -/

/-- The invariant of a neutral solve of a plain graph whose constraints support
a family within the annotations. -/
structure Carries (solver : Solver) (family : Family) : Prop where
  consistent : solver.Consistent
  plain : solver.graph.Plain
  neutral : solver.policy.bias = .neutral
  within : family.Within solver.annotations solver.graph.leafParts
  supports : ∀ member, member ∈ solver.constraints.toList → family.Supports member

theorem Carries.absorb {narrowing : Narrowing} (carries : solver.Carries family)
    (member : constraint ∈ solver.constraints.toList)
    (applied : solver.annotations.apply Leaf.isImmutable constraint = .ok narrowing) :
    (solver.absorb narrowing).Carries family := by
  have between := carries.consistent.between constraint member
  have included := leaves_subset_of_between between
  have reached := Annotations.apply_from carries.consistent.places included.1 included.2 applied
  have consistent := carries.consistent.of_changed
    (changed_absorb carries.consistent.places (List.Subset.refl _) reached)
  rcases carries.plain.sides between with
    ⟨left, right, leftSide, rightSide, leftMember, rightMember⟩
  have within := Family.within_apply carries.consistent.places leftSide rightSide leftMember
    rightMember carries.within (carries.supports constraint member) applied
  rcases solver.absorb_eq narrowing with ⟨worklist, snapshots, absorbed⟩
  rw [absorbed] at consistent ⊢
  exact ⟨consistent, carries.plain, carries.neutral, within, carries.supports⟩

theorem Carries.extend (carries : solver.Carries family)
    (member : constraint ∈ solver.constraints.toList) :
    (solver.extend constraint).Carries family := by
  have known : ∀ member, member ∈ solver.constraints.toList →
      Derivation.Sustains solver.graph family member := fun member present =>
    ⟨carries.consistent.between member present, carries.supports member present⟩
  rcases carries.consistent.extend_eq (Derivation.handedOn_sustains _ carries.plain) known member
    with ⟨found, extension⟩
  have consistent := carries.consistent.extension extension fun _ sustains => sustains.1
  rw [extension.equal] at consistent ⊢
  refine ⟨consistent, carries.plain, carries.neutral, carries.within, ?_⟩
  intro other present
  rcases ConstraintSet.mem_or_mem_of_mem_addAll present with earlier | new
  · exact carries.supports other earlier
  · exact (extension.holds other new).2

theorem Carries.fail (carries : solver.Carries family)
    (member : constraint ∈ solver.constraints.toList) :
    (solver.fail constraint).Carries family := by
  have consistent := carries.consistent.fail member
  rcases fail_of_neutral carries.neutral with ⟨warned, log, failed⟩
  rw [failed] at consistent ⊢
  exact ⟨consistent, carries.plain, carries.neutral, carries.within, carries.supports⟩

theorem Carries.serve (carries : solver.Carries family)
    (member : constraint ∈ solver.constraints.toList) :
    (solver.serve constraint).Carries family := by
  unfold Solver.serve
  split
  · next applied changed success =>
      have reached := changed_apply carries.consistent.places
        (carries.consistent.between constraint member) success
      rcases apply_eq_ok success with ⟨narrowing, outcome, absorbed, -⟩
      have afterApply := carries.absorb member outcome
      rw [← absorbed] at afterApply
      exact afterApply.extend (reached.constraints.symm ▸ member)
  · exact carries.fail member

theorem Carries.step (carries : solver.Carries family) (stepped : solver.step = some next) :
    next.Carries family := by
  rcases step_eq_some stepped with ⟨constraint, rest, waiting, rfl⟩
  have popped := carries.consistent.popped waiting
  have waits : Carries { solver with worklist := rest } family :=
    ⟨popped.1, carries.plain, carries.neutral, carries.within, carries.supports⟩
  exact waits.serve popped.2

/-- Whatever family the constraints at the start support stays within the
annotations for the whole solve. -/
theorem within_solve (plain : solver.graph.Plain) (neutral : solver.policy.bias = .neutral)
    (within : family.Within solver.annotations solver.graph.leafParts)
    (supports : ∀ member, member ∈ solver.graph.upgraded.toList → family.Supports member) :
    family.Within solver.solve.annotations solver.graph.leafParts := by
  have start : solver.start.Carries family := by
    have consistent := start_consistent plain.wellFormed.coherent
    rcases solver.start_eq with ⟨log, started⟩
    rw [started] at consistent ⊢
    exact ⟨consistent, plain, neutral, within, supports⟩
  have done := iterate_preserves
    (fun _ _ stepped carries => Carries.step carries stepped) solver.rounds start
  have carried := done.within
  rw [(iterate_consistent plain.wellFormed.coherent solver.rounds).2] at carried
  rcases solve_eq_afterServing plain.wellFormed.coherent plain.wellFormed.specified neutral with
    ⟨log, solved⟩
  rw [solved]
  exact carried

/-! ## The greatest family -/

/-- A family of subsets of the annotations that the constraints of the graph
and their reverse flows support. -/
def SupportedFamily (solver : Solver) (family : Family) : Prop :=
  family.Within solver.annotations solver.graph.leafParts ∧
    ∀ member, member ∈ solver.graph.upgraded.toList → family.Supports member

theorem Solution.supportedFamily {assignment : Assignment} (solution : solver.Solution assignment)
    (plainFlows : solver.graph.PlainFlows) (neutral : solver.policy.bias = .neutral)
    (fixed : ∀ leaf, leaf ∈ solver.graph.leafParts → leaf.isImmutable = true →
      (solver.annotations.get leaf).size = 1) :
    solver.SupportedFamily solver.solve.annotations.get := by
  refine ⟨(solve_shrinks plainFlows.plain neutral).subset, fun member present => ?_⟩
  exact supports_of_not_fails plainFlows neutral fixed present
    (solution.not_fails plainFlows.plain present)

theorem SupportedFamily.reordered {other : ValueGraph} (supported : solver.SupportedFamily family)
    (reordered : solver.graph.Reordered other) (wellFormed : solver.graph.WellFormed) :
    SupportedFamily { solver with graph := other } family := by
  constructor
  · intro leaf member
    rw [reordered.leafParts] at member
    exact supported.1 leaf member
  · exact reordered.forall_upgraded
      (fun relation left right => relation.Supported (family.view left) (family.view right))
      wellFormed supported.2

theorem Solution.reordered {assignment : Assignment} {other : ValueGraph}
    (solution : solver.Solution assignment) (reordered : solver.graph.Reordered other)
    (wellFormed : solver.graph.WellFormed) :
    Solution { solver with graph := other } assignment := by
  constructor
  · intro leaf member
    rw [reordered.leafParts] at member
    exact solution.1 leaf member
  · exact reordered.forall_upgraded
      (fun relation left right =>
        Assignment.Related relation (assignment.eval left) (assignment.eval right))
      wellFormed solution.2

theorem eq_of_greatest {first second : Family}
    (firstSupported : solver.SupportedFamily first)
    (secondSupported : solver.SupportedFamily second)
    (firstGreatest : ∀ family, solver.SupportedFamily family →
      ∀ leaf, leaf ∈ solver.graph.leafParts → family leaf ⊆ first leaf)
    (secondGreatest : ∀ family, solver.SupportedFamily family →
      ∀ leaf, leaf ∈ solver.graph.leafParts → family leaf ⊆ second leaf) {leaf : Leaf}
    (member : leaf ∈ solver.graph.leafParts) : first leaf = second leaf := by
  have below := secondGreatest first firstSupported leaf member
  have above := firstGreatest second secondSupported leaf member
  exact QualifierSet.ext fun qualifier => ⟨below qualifier, above qualifier⟩

/-- Let all constraints of a graph be flows between leaves, let each immutable
leaf start with a single qualifier, and let there be a solution. Then a neutral
solve computes the greatest family of subsets of the annotations at the start
that the constraints and their reverse flows support. So it computes the same
whenever the constraints are added in another order. -/
theorem solve_greatest (solver : Solver) (plainFlows : solver.graph.PlainFlows)
    (neutral : solver.policy.bias = .neutral)
    (fixed : ∀ leaf, leaf ∈ solver.graph.leafParts → leaf.isImmutable = true →
      (solver.annotations.get leaf).size = 1)
    (solvable : ∃ assignment, solver.Solution assignment) :
    solver.SupportedFamily solver.solve.annotations.get ∧
      (∀ family, solver.SupportedFamily family →
        ∀ leaf, leaf ∈ solver.graph.leafParts → family leaf ⊆ solver.solve.annotations.get leaf) ∧
      ∀ (base : ValueGraph) (additions reordered : List ValueGraph.Addition),
        base.addAll additions = .ok solver.graph →
        (∀ addition, addition ∈ additions →
          addition.2.1 ∈ base.values ∧ addition.2.2 ∈ base.values) →
        additions.Perm reordered →
          ∃ other, base.addAll reordered = .ok other ∧
            ∀ leaf, leaf ∈ solver.graph.leafParts →
              ({ solver with graph := other } : Solver).solve.annotations.get leaf =
                solver.solve.annotations.get leaf := by
  have wellFormed := plainFlows.plain.wellFormed
  rcases solvable with ⟨assignment, solution⟩
  have supported := solution.supportedFamily plainFlows neutral fixed
  have greatest : ∀ family, solver.SupportedFamily family →
      family.Within solver.solve.annotations solver.graph.leafParts :=
    fun family supports => within_solve plainFlows.plain neutral supports.1 supports.2
  refine ⟨supported, greatest, ?_⟩
  intro base additions reordered added own same
  rcases ValueGraph.addAll_reordered wellFormed added own same with ⟨other, addedAgain, alike⟩
  refine ⟨other, addedAgain, fun leaf member => ?_⟩
  have otherFlows := alike.plainFlows plainFlows
  have sameLeaves := alike.leafParts
  have otherSolution := solution.reordered alike wellFormed
  have otherSupported := otherSolution.supportedFamily otherFlows neutral (sameLeaves ▸ fixed)
  have otherGreatest : ∀ family, SupportedFamily { solver with graph := other } family →
      family.Within ({ solver with graph := other } : Solver).solve.annotations other.leafParts :=
    fun family supports => within_solve otherFlows.plain neutral supports.1 supports.2
  have back : SupportedFamily solver
      ({ solver with graph := other } : Solver).solve.annotations.get :=
    otherSupported.reordered alike.symm otherFlows.plain.wellFormed
  refine eq_of_greatest back supported (fun family supports => ?_) greatest member
  rw [← sameLeaves]
  exact otherGreatest family (supports.reordered alike wellFormed)

theorem solve_greatest_passedSecret :
    let base : ValueGraph := { passedSecret with constraints := {} }
    let additions : List ValueGraph.Addition := passedSecret.constraints.toList.map
      fun constraint => (constraint.relation, constraint.left, constraint.right)
    passedSecret.PlainFlows ∧
      (∀ leaf, leaf ∈ passedSecret.leafParts → leaf.isImmutable = true →
        (({} : Annotations).get leaf).size = 1) ∧
      Solution { graph := passedSecret } (fun _ => .sensitive) ∧
      SupportedFamily { graph := passedSecret } (solve { graph := passedSecret }).annotations.get ∧
      base.addAll additions = .ok passedSecret ∧
      ∃ other, base.addAll additions.reverse = .ok other ∧
        ∀ leaf, leaf ∈ passedSecret.leafParts →
          (solve { graph := other }).annotations.get leaf =
            (solve { graph := passedSecret }).annotations.get leaf := by
  intro base additions
  have plainFlows : passedSecret.PlainFlows := by decide
  have fixed : ∀ leaf, leaf ∈ passedSecret.leafParts → leaf.isImmutable = true →
      (({} : Annotations).get leaf).size = 1 := by decide
  have within : Assignment.Within (fun _ => .sensitive) {} passedSecret.leafParts := by decide
  have satisfies : ∀ member, member ∈ passedSecret.upgraded.toList →
      Assignment.Satisfies (fun _ => .sensitive) member := by decide
  have solution : Solution { graph := passedSecret } (fun _ => .sensitive) := ⟨within, satisfies⟩
  have added : base.addAll additions = .ok passedSecret := rfl
  have own : ∀ addition, addition ∈ additions →
      addition.2.1 ∈ base.values ∧ addition.2.2 ∈ base.values := by decide
  have solved := solve_greatest { graph := passedSecret } plainFlows rfl fixed ⟨_, solution⟩
  exact ⟨plainFlows, fixed, solution, solved.1, added,
    solved.2.2 base additions additions.reverse added own (List.reverse_perm additions).symm⟩

end Solver

end InfoFlow
