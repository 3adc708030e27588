import InfoFlow.Proofs.Narrowing.Monotone
import InfoFlow.Proofs.Solver.InPlace

/-! Constraints that are accepted.

A constraint that is accepted where values carry few qualifiers is accepted where
they carry more, and leaves them more. And what is accepted once is accepted
again: if a constraint takes anything at all, then its sides have two related
qualifiers that both can be given to their leaves at once, however the leaves are
shared. Such a solution survives the constraint. -/

namespace InfoFlow

namespace Relation

theorem narrow_changed {relation : Relation} {left right newLeft newRight : QualifierSet}
    (narrowed : relation.narrow left right = some (newLeft, newRight))
    (leftInhabited : newLeft ≠ .empty) (rightInhabited : newRight ≠ .empty)
    (changed : newLeft ≠ left ∨ newRight ≠ right) :
    ∃ sub sup, sub ∈ left ∧ sup ∈ right ∧ Assignment.Related relation sub sup ∧
      (sub = sup ∨ left = .only sub ∨ right = .only sup) := by
  have found : left.any (fun sub => right.any fun sup =>
      decide (Assignment.Related relation sub sup ∧
        (sub = sup ∨ left = .only sub ∨ right = .only sup))) = true := by
    cases relation with
    | unspecified => cases narrowed
    | subtype | equality | unequality =>
        cases narrowed
        revert leftInhabited rightInhabited changed
        rcases left with ⟨_ | _, _ | _, _ | _⟩ <;> rcases right with ⟨_ | _, _ | _, _ | _⟩ <;>
          decide
  rcases QualifierSet.any_eq_true.mp found with ⟨sub, subMember, partner⟩
  rcases QualifierSet.any_eq_true.mp partner with ⟨sup, supMember, holds⟩
  exact ⟨sub, sup, subMember, supMember, of_decide_eq_true holds⟩

end Relation

namespace Annotations

variable {before : Annotations} {frozen : Leaf → Bool} {constraint : Constraint}
  {newLeft newRight : QualifierSet} {narrowing : Narrowing}

theorem exists_satisfies_of_changed
    (places : SeparatePlaces (constraint.left.leaves ++ constraint.right.leaves))
    (narrowed : constraint.relation.narrow (before.view constraint.left)
      (before.view constraint.right) = some (newLeft, newRight))
    (leftInhabited : newLeft ≠ .empty) (rightInhabited : newRight ≠ .empty)
    (changed : newLeft ≠ before.view constraint.left ∨ newRight ≠ before.view constraint.right) :
    ∃ assignment : Assignment,
      assignment.Within before (constraint.left.leaves ++ constraint.right.leaves) ∧
        assignment.Satisfies constraint := by
  rcases Relation.narrow_changed narrowed leftInhabited rightInhabited changed with
    ⟨sub, sup, subMember, supMember, related, shared | single | single⟩
  all_goals have within := Assignment.preferring_within_both places subMember supMember
  · refine ⟨_, within sub, ?_⟩
    rw [Assignment.Satisfies, Assignment.eval_preferring places constraint.left_below subMember,
      Assignment.eval_preferring places constraint.right_below (shared ▸ supMember)]
    exact shared ▸ related
  · refine ⟨_, within sup, ?_⟩
    have onLeft := Assignment.eval_mem_view ((within sup).subset constraint.left_below)
    rw [single, QualifierSet.mem_only] at onLeft
    rw [Assignment.Satisfies, onLeft,
      Assignment.eval_preferring places constraint.right_below supMember]
    exact related
  · refine ⟨_, within sub, ?_⟩
    have onRight := Assignment.eval_mem_view ((within sub).subset constraint.right_below)
    rw [single, QualifierSet.mem_only] at onRight
    rw [Assignment.Satisfies, onRight,
      Assignment.eval_preferring places constraint.left_below subMember]
    exact related

theorem apply_again (places : SeparatePlaces (constraint.left.leaves ++ constraint.right.leaves))
    (applied : before.apply frozen constraint = .ok narrowing) :
    ∃ again, narrowing.annotations.apply frozen constraint = .ok again := by
  rcases apply_eq_ok applied with
    ⟨newLeft, newRight, narrowed, leftInhabited, rightInhabited, carriedOut⟩
  by_cases changed : newLeft ≠ before.view constraint.left ∨
      newRight ≠ before.view constraint.right
  · have specified := Relation.specified_of_narrow narrowed
    rcases exists_satisfies_of_changed places narrowed leftInhabited rightInhabited changed with
      ⟨assignment, within, satisfied⟩
    rcases apply_of_satisfies specified constraint.left_below constraint.right_below within
      satisfied with ⟨kept, first, stays⟩
    cases applied.symm.trans first
    rcases apply_of_satisfies specified constraint.left_below constraint.right_below stays
      satisfied with ⟨again, second, -⟩
    exact ⟨again, second⟩
  · simp only [not_or, not_not] at changed
    have unwritten : narrowing.annotations = before := by
      simp [carriedOut, carryOut, changed.1, changed.2]
    exact ⟨narrowing, unwritten.symm ▸ applied⟩

end Annotations

namespace Store

variable {State : Type} {store : Store State} {state less more : State} {leaves : List Leaf}
  {constraint : Constraint}

def Accepted (result : State × Except Failure Bool) : Prop :=
  ∃ changed, result.2 = .ok changed

theorem accepted_iff : Accepted (store.handle state constraint) ↔
    ∃ narrowing, (store.annotations state).apply store.frozen constraint = .ok narrowing ∧
      store.annotations (store.handle state constraint).1 = narrowing.annotations := by
  rw [Accepted, handle_eq]
  cases outcome : (store.annotations state).apply store.frozen constraint with
  | error failure => simp
  | ok narrowing => simp [annotations_foldl_record outcome]

theorem handle_mono (places : SeparatePlaces leaves)
    (leftIncluded : constraint.left.leaves ⊆ leaves)
    (rightIncluded : constraint.right.leaves ⊆ leaves)
    (fewer : Annotations.Fewer leaves (store.annotations more) (store.annotations less))
    (accepted : Accepted (store.handle less constraint)) :
    Accepted (store.handle more constraint) ∧
      Annotations.Fewer leaves (store.annotations (store.handle more constraint).1)
        (store.annotations (store.handle less constraint).1) := by
  rcases accepted_iff.mp accepted with ⟨narrowing, applied, annotations⟩
  rcases Annotations.apply_mono places leftIncluded rightIncluded fewer applied with
    ⟨moreNarrowing, moreApplied, remaining⟩
  have moreAccepted : Accepted (store.handle more constraint) := by
    rw [Accepted, handle_eq, moreApplied]
    exact ⟨_, rfl⟩
  rcases accepted_iff.mp moreAccepted with ⟨sameNarrowing, again, moreAnnotations⟩
  cases moreApplied.symm.trans again
  rw [annotations, moreAnnotations]
  exact ⟨moreAccepted, remaining⟩

theorem handle_again
    (places : SeparatePlaces (constraint.left.leaves ++ constraint.right.leaves))
    (accepted : Accepted (store.handle state constraint)) :
    Accepted (store.handle (store.handle state constraint).1 constraint) := by
  rcases accepted_iff.mp accepted with ⟨narrowing, applied, annotations⟩
  rcases Annotations.apply_again places applied with ⟨again, reapplied⟩
  rw [← annotations] at reapplied
  rw [Accepted, handle_eq, reapplied]
  exact ⟨_, rfl⟩

end Store

namespace Solver

/-- Applying a constraint, to plain annotations or in a solver, is monotone. A
constraint that is accepted where leaves carry fewer qualifiers is accepted where
they carry more, and leaves them more, although it may write other leaves in the
one case than in the other. -/
theorem handle_monotone {leaves : List Leaf} {constraint : Constraint}
    (places : SeparatePlaces leaves) (leftIncluded : constraint.left.leaves ⊆ leaves)
    (rightIncluded : constraint.right.leaves ⊆ leaves) :
    (∀ less more : Annotations, Annotations.Fewer leaves more less →
      Store.Accepted (less.applied constraint) →
        Store.Accepted (more.applied constraint) ∧
          Annotations.Fewer leaves (more.applied constraint).1 (less.applied constraint).1) ∧
      ∀ less more : Solver, Annotations.Fewer leaves more.annotations less.annotations →
        Store.Accepted (less.applied constraint) →
          Store.Accepted (more.applied constraint) ∧
            Annotations.Fewer leaves (more.applied constraint).1.annotations
              (less.applied constraint).1.annotations := by
  constructor
  · intro less more fewer accepted
    rw [← Annotations.handle_eq_applied] at accepted
    rw [← Annotations.handle_eq_applied, ← Annotations.handle_eq_applied]
    exact Store.handle_mono places leftIncluded rightIncluded fewer accepted
  · intro less more fewer accepted
    rw [← handle_eq_applied] at accepted
    rw [← handle_eq_applied, ← handle_eq_applied]
    exact Store.handle_mono places leftIncluded rightIncluded fewer accepted

/-- What is stored in a box flows to something clear. Where the content is clear
already nothing has to be written; where it need not be, the box and the content
both lose qualifiers, and still both carry more. -/
theorem handle_monotone_stored :
    let content := LeafSpec.leaf { identifier := "content", kind := .field } 0 0
    let box := LeafSpec.leaf { identifier := "box", declared := .ofList [.poly, .clear] } 0 1
    let sink := LeafSpec.leaf { identifier := "sink", declared := .only .clear } 0 2
    let stored : Value := .adapted .field 0 3 (.leaf content) (.leaf box)
    let constraint : Constraint := { relation := .subtype, left := stored, right := .leaf sink }
    let more : Solver := { graph := { values := [.leaf content, .leaf box, .leaf sink] } }
    let less := { more with annotations := more.annotations.set content (.only .clear) }
    (less.applied constraint).2 = .ok false ∧ (more.applied constraint).2 = .ok true ∧
      Annotations.Fewer [content, box, sink] (more.applied constraint).1.annotations
        (less.applied constraint).1.annotations := by
  intro content box sink stored constraint more less
  have fewer : Annotations.Fewer [content, box, sink] more.annotations less.annotations := by
    unfold Annotations.Fewer
    decide
  have unchanged : (less.applied constraint).2 = .ok false := by decide
  have monotone := (@handle_monotone [content, box, sink] constraint (by decide) (by decide)
    (by decide)).2 less more fewer ⟨false, unchanged⟩
  exact ⟨unchanged, by decide, monotone.2⟩

/-- A constraint that was accepted, by plain annotations or by a solver, is
accepted again. -/
theorem handle_stays_accepted {constraint : Constraint}
    (places : SeparatePlaces (constraint.left.leaves ++ constraint.right.leaves)) :
    (∀ annotations : Annotations, Store.Accepted (annotations.applied constraint) →
      Store.Accepted ((annotations.applied constraint).1.applied constraint)) ∧
      ∀ solver : Solver, Store.Accepted (solver.applied constraint) →
        Store.Accepted ((solver.applied constraint).1.applied constraint) := by
  constructor
  · intro annotations accepted
    rw [← Annotations.handle_eq_applied] at accepted
    rw [← Annotations.handle_eq_applied, ← Annotations.handle_eq_applied]
    exact Store.handle_again places accepted
  · intro solver accepted
    rw [← handle_eq_applied] at accepted
    rw [← handle_eq_applied, ← handle_eq_applied]
    exact Store.handle_again places accepted

/-- A box is the same as what is stored in it, which is sensitive or clear. So the
box is no longer polymorphic, and then still the same as what is stored in it. -/
theorem handle_stays_accepted_boxInItself :
    let content := LeafSpec.leaf
      { identifier := "content", kind := .field, declared := .ofList [.sensitive, .clear] } 0 0
    let box := LeafSpec.leaf { identifier := "box" } 0 1
    let stored : Value := .adapted .field 0 2 (.leaf content) (.leaf box)
    let constraint : Constraint := { relation := .equality, left := stored, right := .leaf box }
    let solver : Solver := { graph := { values := [.leaf content, .leaf box, stored] } }
    let result := solver.applied constraint
    result.2 = .ok true ∧
      result.1.annotations.get box = .ofList [.sensitive, .clear] ∧
      Store.Accepted (result.1.applied constraint) := by
  intro content box stored constraint solver result
  have accepted : result.2 = .ok true := by decide
  have again := (@handle_stays_accepted constraint (by decide)).2 solver ⟨true, accepted⟩
  exact ⟨accepted, by decide, again⟩

end Solver

end InfoFlow
