import InfoFlow.Proofs.Derivation.Soundness
import InfoFlow.Proofs.Solver.Fixpoint

/-! A solve loses no solution.

Suppose that an assignment picks qualifiers from the annotations at the start
and satisfies the constraints at the start. Then every constraint that is served
is satisfied within the annotations, so it can be applied, the assignment stays
within the annotations, and it satisfies what is derived. Nothing ever fails,
hence nothing is repaired, reported or left as a conflict. -/

namespace InfoFlow.Solver

variable {solver next : Solver} {assignment : Assignment} {constraint : Constraint}

/-- The invariant of a solve that an assignment solves. -/
structure Admits (solver : Solver) (assignment : Assignment) : Prop where
  consistent : solver.Consistent
  wellFormed : solver.graph.WellFormed
  outside : FieldsOutsideArrays solver.graph.parts
  within : assignment.Within solver.annotations solver.graph.leafParts
  satisfies : ∀ member, member ∈ solver.constraints.toList → assignment.Satisfies member
  conflicts : solver.conflicts.toList = []
  warned : solver.warned = []

theorem Admits.apply (admits : solver.Admits assignment)
    (member : constraint ∈ solver.constraints.toList) :
    ∃ narrowing, solver.annotations.apply Leaf.isImmutable constraint = .ok narrowing ∧
      (solver.absorb narrowing).Admits assignment ∧
      (solver.absorb narrowing).log = solver.log := by
  have between := admits.consistent.between constraint member
  have included := leaves_subset_of_between between
  rcases Annotations.apply_of_satisfies 
      (admits.consistent.specified admits.wellFormed.specified member) included.1 included.2
      admits.within (admits.satisfies constraint member) with ⟨narrowing, applied, within⟩
  have reached := Annotations.apply_from admits.consistent.places included.1 included.2 applied
  have consistent := admits.consistent.of_changed
    (changed_absorb admits.consistent.places (List.Subset.refl _) reached)
  refine ⟨narrowing, applied, ?_⟩
  rcases solver.absorb_eq narrowing with ⟨worklist, snapshots, absorbed⟩
  rw [absorbed] at consistent ⊢
  exact ⟨⟨consistent, admits.wellFormed, admits.outside, within, admits.satisfies,
    admits.conflicts, admits.warned⟩, rfl⟩

theorem Admits.extend (admits : solver.Admits assignment)
    (member : constraint ∈ solver.constraints.toList) :
    (solver.extend constraint).Admits assignment ∧
      (solver.extend constraint).log = solver.log := by
  have handedOn := Derivation.handedOn_holds solver.graph admits.wellFormed.numbered
    solver.graph.closed_parts admits.outside (fun _ => ValueGraph.leaves_subset_leafParts)
    admits.within
  have known : ∀ member, member ∈ solver.constraints.toList →
      Derivation.Holds assignment solver.graph.parts member := fun member present =>
    ⟨admits.consistent.between member present, admits.satisfies member present⟩
  rcases admits.consistent.extend_eq handedOn known member with ⟨found, extension⟩
  have consistent := admits.consistent.extension extension fun _ holds => holds.1
  rw [extension.equal] at consistent ⊢
  refine ⟨⟨consistent, admits.wellFormed, admits.outside, admits.within, ?_, admits.conflicts,
    admits.warned⟩, rfl⟩
  intro other present
  rcases ConstraintSet.mem_or_mem_of_mem_addAll present with earlier | new
  · exact admits.satisfies other earlier
  · exact (extension.holds other new).2

theorem Admits.serve (admits : solver.Admits assignment)
    (member : constraint ∈ solver.constraints.toList) :
    (solver.serve constraint).Admits assignment ∧ (solver.serve constraint).log = solver.log := by
  rcases admits.apply member with ⟨narrowing, applied, absorbed, log⟩
  have memberAfter : constraint ∈ (solver.absorb narrowing).constraints.toList := by
    rcases solver.absorb_eq narrowing with ⟨worklist, snapshots, equal⟩
    rw [equal]
    exact member
  have extended := absorbed.extend memberAfter
  rw [Solver.serve, apply_of_ok applied]
  exact ⟨extended.1, extended.2.trans log⟩

theorem Admits.popped {rest : Worklist} (admits : solver.Admits assignment)
    (waiting : solver.worklist.toList = constraint :: rest.toList) :
    Admits { solver with worklist := rest } assignment ∧
      constraint ∈ solver.constraints.toList := by
  have popped := admits.consistent.popped waiting
  exact ⟨⟨popped.1, admits.wellFormed, admits.outside, admits.within, admits.satisfies,
    admits.conflicts, admits.warned⟩, popped.2⟩

theorem Admits.step (admits : solver.Admits assignment) (stepped : solver.step = some next) :
    next.Admits assignment ∧ next.log = solver.log := by
  rcases step_eq_some stepped with ⟨constraint, rest, waiting, rfl⟩
  have popped := admits.popped waiting
  exact popped.1.serve popped.2

theorem start_admits (wellFormed : solver.graph.WellFormed)
    (outside : FieldsOutsideArrays solver.graph.parts)
    (within : assignment.Within solver.annotations solver.graph.leafParts)
    (satisfies : ∀ member, member ∈ solver.graph.upgraded.toList → assignment.Satisfies member) :
    solver.start.Admits assignment := by
  have consistent := start_consistent wellFormed.coherent
  rcases solver.start_eq with ⟨log, started⟩
  rw [started] at consistent ⊢
  exact ⟨consistent, wellFormed, outside, within, satisfies, rfl, rfl⟩

theorem iterate_admits (admits : solver.start.Admits assignment) (count : Nat) :
    (iterate step count solver.start).Admits assignment ∧
      (iterate step count solver.start).log = solver.start.log := by
  have kept : ∀ current next, step current = some next →
      current.Admits assignment ∧ current.log = solver.start.log →
        next.Admits assignment ∧ next.log = solver.start.log := by
    intro current next stepped both
    have after := both.1.step stepped
    exact ⟨after.1, after.2.trans both.2⟩
  exact iterate_preserves kept count ⟨admits, rfl⟩

/-- Let an assignment lie within the annotations before a solve and satisfy the
constraints of the graph with their reverse flows, and let no field be seen
through an array. Then it lies within the annotations after the solve and
satisfies the whole working set; every constraint could be applied when its
turn came, nothing was reported meanwhile, and there are no conflicts. So where
there is a conflict or a warning, there is no such assignment. A well-formed
graph may adapt values of another one only if their numbers do not clash with
its own; one that is made from its own values is well formed. -/
theorem solve_sound (solver : Solver) (assignment : Assignment)
    (wellFormed : solver.graph.WellFormed) (outside : FieldsOutsideArrays solver.graph.parts)
    (within : assignment.Within solver.annotations solver.graph.leafParts)
    (satisfies : ∀ member, member ∈ solver.graph.upgraded.toList → assignment.Satisfies member) :
    assignment.Within solver.solve.annotations solver.graph.leafParts ∧
      (∀ member, member ∈ solver.solve.constraints.toList → assignment.Satisfies member) ∧
      (∀ count constraint rest,
        (iterate step count solver.start).worklist.pop? = some (constraint, rest) →
          ∃ applied, ({ iterate step count solver.start with worklist := rest } : Solver).apply
            constraint = .ok applied) ∧
      solver.solve.conflicts.toList = [] ∧ solver.solve.warned = [] ∧
      (iterate step solver.rounds solver.start).log = solver.start.log := by
  have start := start_admits wellFormed outside within satisfies
  have done := iterate_admits start solver.rounds
  have graph := (iterate_consistent wellFormed.coherent solver.rounds).2
  rcases (iterate step solver.rounds solver.start).finish_eq with ⟨log, finished⟩
  rw [done.1.conflicts, List.foldl_nil] at finished
  have withinAfter := done.1.within
  rw [graph] at withinAfter
  rw [solve, finished]
  refine ⟨withinAfter, done.1.satisfies, ?_, done.1.conflicts, done.1.warned, done.2⟩
  intro count constraint rest popped
  have waiting := Worklist.toList_eq_of_pop? popped
  have turn := (iterate_admits start count).1.popped waiting
  rcases turn.1.apply turn.2 with ⟨narrowing, applied, -⟩
  exact ⟨_, apply_of_ok applied⟩

/-- The content of a box that is reached through a link of another box, and must
not be what is published. -/
def linkedBoxes : ValueGraph :=
  let box : Value := .leaf (LeafSpec.leaf { identifier := "box" } 0 0)
  let link : Value := .leaf (LeafSpec.leaf { identifier := "link", kind := .field } 0 1)
  let content : Value := .leaf (LeafSpec.leaf { identifier := "content", kind := .field } 0 2)
  let linked : Value := .adapted .field 0 3 link box
  let reached : Value := .adapted .field 0 4 content linked
  let shown : Value := .leaf (LeafSpec.leaf { identifier := "shown" } 0 5)
  let published : Value := .leaf
    (LeafSpec.leaf { identifier := "published", kind := .constant, declared := .only .clear } 0 6)
  { values := [box, link, content, linked, reached, shown, published]
    constraints := .ofList
      [.inferred reached shown [], { relation := .unequality, left := shown, right := published }] }

theorem solve_sound_linkedBoxes :
    let assignment : Assignment := fun place => if place = (0, 6) then .clear else .sensitive
    linkedBoxes.WellFormed ∧ FieldsOutsideArrays linkedBoxes.parts ∧
      assignment.Within {} linkedBoxes.leafParts ∧
      (∀ member, member ∈ linkedBoxes.upgraded.toList → assignment.Satisfies member) ∧
      assignment.Within (solve { graph := linkedBoxes }).annotations linkedBoxes.leafParts ∧
      (solve { graph := linkedBoxes }).conflicts.toList = [] := by
  intro assignment
  have wellFormed : linkedBoxes.WellFormed := by decide
  have outside : FieldsOutsideArrays linkedBoxes.parts := by decide
  have within : assignment.Within {} linkedBoxes.leafParts := by decide
  have satisfies : ∀ member, member ∈ linkedBoxes.upgraded.toList →
      assignment.Satisfies member := by decide
  have sound := solve_sound { graph := linkedBoxes } assignment wellFormed outside within satisfies
  exact ⟨wellFormed, outside, within, satisfies, sound.1, sound.2.2.2.1⟩

end InfoFlow.Solver
