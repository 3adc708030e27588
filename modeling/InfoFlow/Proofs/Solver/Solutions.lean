import InfoFlow.Proofs.Solver.InPlace

/-! Solutions of a constraint that is applied in place.

What a constraint takes from a side is decided by the qualifiers of both sides
as they are when it is applied. It is taken from the leaves one after the other,
and where a leaf occurs more than once, from qualifiers that earlier writes have
changed. Still no solution is lost on the way. A constraint is refused exactly
where no qualifiers of its sides are related. It may be applied although it has
no solution, since its sides may share leaves. -/

namespace InfoFlow

theorem Relation.solvable_eq_false_iff {relation : Relation} {left right : QualifierSet} :
    relation.solvable left right = false ↔
      ∀ sub sup, sub ∈ left → sup ∈ right → ¬ Assignment.Related relation sub sup := by
  rw [← Bool.not_eq_true, Relation.solvable, QualifierSet.any_eq_true]
  constructor
  · intro unsolvable sub sup subMember supMember related
    exact unsolvable ⟨sub, subMember,
      QualifierSet.any_eq_true.mpr ⟨sup, supMember, decide_eq_true related⟩⟩
  · rintro apart ⟨sub, subMember, partner⟩
    rcases QualifierSet.any_eq_true.mp partner with ⟨sup, supMember, related⟩
    exact apart sub sup subMember supMember (of_decide_eq_true related)

namespace Store

variable {State : Type} {store : Store State} {state : State} {leaves : List Leaf}
  {constraint : Constraint}

def refusal (store : Store State) (state : State) (constraint : Constraint) : Failure :=
  .unsatisfiable constraint ((store.annotations state).view constraint.left)
    ((store.annotations state).view constraint.right)

/-- A constraint was applied to a state, or refused because no two qualifiers
of its sides are related. Where it has a solution, it was applied, and the
solution stays within the annotations. -/
structure Preserves (store : Store State) (leaves : List Leaf) (constraint : Constraint)
    (before : State) (result : State × Except Failure Bool) : Prop where
  kept : ∀ assignment : Assignment, assignment.Within (store.annotations before) leaves →
    assignment.Satisfies constraint →
      (∃ changed, result.2 = .ok changed) ∧
        assignment.Within (store.annotations result.1) leaves
  refused_iff : result.2 = .error (store.refusal before constraint) ↔
    ∀ sub sup, sub ∈ (store.annotations before).view constraint.left →
      sup ∈ (store.annotations before).view constraint.right →
        ¬ Assignment.Related constraint.relation sub sup
  decided : (∃ changed, result.2 = .ok changed) ∨
    result.2 = .error (store.refusal before constraint)

theorem handle_within {assignment : Assignment} (specified : constraint.relation ≠ .unspecified)
    (leftIncluded : constraint.left.leaves ⊆ leaves)
    (rightIncluded : constraint.right.leaves ⊆ leaves)
    (within : assignment.Within (store.annotations state) leaves)
    (satisfied : assignment.Satisfies constraint) :
    (∃ changed, (store.handle state constraint).2 = .ok changed) ∧
      assignment.Within (store.annotations (store.handle state constraint).1) leaves := by
  rcases Annotations.apply_of_satisfies specified leftIncluded rightIncluded within satisfied with
    ⟨narrowing, applied, stays⟩
  have annotations := annotations_foldl_record applied
  simp only [handle_eq, applied, annotations]
  exact ⟨⟨_, rfl⟩, stays⟩

/-- A constraint is refused exactly if no two qualifiers of its sides are
related, and applied otherwise. -/
theorem handle_refused_iff (store : Store State) (state : State)
    (specified : constraint.relation ≠ .unspecified) :
    ((store.handle state constraint).2 = .error (store.refusal state constraint) ↔
        ∀ sub sup, sub ∈ (store.annotations state).view constraint.left →
          sup ∈ (store.annotations state).view constraint.right →
            ¬ Assignment.Related constraint.relation sub sup) ∧
      ((∃ changed, (store.handle state constraint).2 = .ok changed) ∨
        (store.handle state constraint).2 = .error (store.refusal state constraint)) := by
  rcases Relation.narrow_of_specified specified ((store.annotations state).view constraint.left)
    ((store.annotations state).view constraint.right) with ⟨newLeft, newRight, narrowed⟩
  rw [← Relation.solvable_eq_false_iff, ← Relation.narrow_exhausted narrowed]
  by_cases exhausted : newLeft = .empty ∨ newRight = .empty
  · have refused : (store.handle state constraint).2 =
        .error (store.refusal state constraint) := by
      rw [handle_eq, Annotations.apply_of_exhausted narrowed exhausted]
      rfl
    exact ⟨iff_of_true refused exhausted, .inr refused⟩
  · rw [not_or] at exhausted
    have accepted : ∃ changed, (store.handle state constraint).2 = .ok changed := by
      rw [handle_eq, Annotations.apply_of_inhabited narrowed exhausted.1 exhausted.2]
      exact ⟨_, rfl⟩
    refine ⟨iff_of_false ?_ (not_or.mpr exhausted), .inl accepted⟩
    rcases accepted with ⟨changed, accepted⟩
    rw [accepted]
    exact fun refused => nomatch refused

theorem handle_preserves (store : Store State) (state : State)
    (specified : constraint.relation ≠ .unspecified)
    (leftIncluded : constraint.left.leaves ⊆ leaves)
    (rightIncluded : constraint.right.leaves ⊆ leaves) :
    store.Preserves leaves constraint state (store.handle state constraint) where
  kept := fun _ within satisfied =>
    handle_within specified leftIncluded rightIncluded within satisfied
  refused_iff := (handle_refused_iff store state specified).1
  decided := (handle_refused_iff store state specified).2

end Store

namespace Solver

/-- Applying a constraint in place, to plain annotations or in a solver, loses no
solution of it, however deep its sides are nested and whatever leaves they
share; and it is refused exactly if no two qualifiers of its sides are
related. -/
theorem handle_keeps_solutions {leaves : List Leaf} {constraint : Constraint}
    (specified : constraint.relation ≠ .unspecified)
    (leftIncluded : constraint.left.leaves ⊆ leaves)
    (rightIncluded : constraint.right.leaves ⊆ leaves) :
    (∀ annotations : Annotations,
      annotations.applied constraint = Annotations.store.handle annotations constraint ∧
        Annotations.store.Preserves leaves constraint annotations
          (annotations.applied constraint)) ∧
      ∀ solver : Solver, solver.applied constraint = store.handle solver constraint ∧
        store.Preserves leaves constraint solver (solver.applied constraint) := by
  constructor
  · intro annotations
    rw [← Annotations.handle_eq_applied]
    exact ⟨rfl, Annotations.store.handle_preserves annotations specified leftIncluded
      rightIncluded⟩
  · intro solver
    rw [← handle_eq_applied]
    exact ⟨rfl, store.handle_preserves solver specified leftIncluded rightIncluded⟩

/-- What is stored in a box, seen through itself, flows to something clear. The
solution where the content is polymorphic and the box clear stays. -/
theorem handle_keeps_solutions_storedTwice :
    let content := LeafSpec.leaf { identifier := "content", kind := .field } 0 0
    let box := LeafSpec.leaf { identifier := "box" } 0 1
    let sink := LeafSpec.leaf { identifier := "sink", declared := .only .clear } 0 2
    let stored : Value := .adapted .field 0 3 (.leaf content) (.leaf box)
    let within : Value := .adapted .field 0 4 stored stored
    let constraint : Constraint := { relation := .subtype, left := within, right := .leaf sink }
    let solver : Solver := { graph := { values := [.leaf content, .leaf box, .leaf sink] } }
    let result := solver.applied constraint
    let assignment : Assignment := fun place => if place.2 = 0 then .poly else .clear
    store.Preserves [content, box, sink] constraint solver result ∧
      assignment.Within solver.annotations [content, box, sink] ∧
      assignment.Satisfies constraint ∧ result.2 = .ok true ∧
      assignment.Within (store.annotations result.1) [content, box, sink] := by
  intro content box sink stored within constraint solver result assignment
  have preserves : store.Preserves [content, box, sink] constraint solver result :=
    ((@handle_keeps_solutions [content, box, sink] constraint (by decide) (by decide)
      (by decide)).2 solver).2
  have initially : assignment.Within solver.annotations [content, box, sink] := by decide
  have satisfied : assignment.Satisfies constraint := by decide
  have changed : result.2 = .ok true := by decide
  have kept := preserves.kept assignment initially satisfied
  exact ⟨preserves, initially, satisfied, changed, kept.2⟩

end Solver

end InfoFlow
