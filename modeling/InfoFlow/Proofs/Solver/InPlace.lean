import Mathlib.Data.List.Induction
import InfoFlow.Proofs.Narrowing.InPlace
import InfoFlow.Proofs.Solver.Changes

/-! Constraints that a solver applies in place.

A solver takes over a write by keeping a snapshot of the leaf, queueing what
mentions it and setting its annotations. It does so write by write, and comes
to the same state as if it had absorbed the whole narrowing at its end. So it
does to leaves what the plain annotations do to them, but for the immutable
leaves, which it leaves alone. -/

namespace InfoFlow

namespace Solver

def store : Store Solver where
  annotations := annotations
  frozen := Leaf.isImmutable
  record := record
  annotations_record := fun _ _ => rfl

theorem foldl_record_eq_absorb (solver : Solver) (writes : List Write) :
    writes.foldl record solver =
      solver.absorb ⟨(writes.foldl record solver).annotations, writes⟩ := by
  induction writes using List.reverseRecOn with
  | nil => rfl
  | append_singleton earlier last induction =>
      have recorded := solver.absorb_written
        ⟨(earlier.foldl record solver).annotations, earlier⟩ last
      rw [← induction] at recorded
      rw [List.foldl_append]
      exact recorded.symm

def applied (solver : Solver) (constraint : Constraint) : Solver × Except Failure Bool :=
  match solver.apply constraint with
  | .ok (next, changed) => (next, .ok changed)
  | .error failure => (solver, .error failure)

theorem handle_eq_applied (solver : Solver) (constraint : Constraint) :
    store.handle solver constraint = solver.applied constraint := by
  rw [Store.handle_eq, applied, apply]
  cases outcome : (store.annotations solver).apply store.frozen constraint with
  | error failure =>
      have failed : solver.annotations.apply Leaf.isImmutable constraint = .error failure := outcome
      simp only [failed, Except.map]
  | ok narrowing =>
      have accepted : solver.annotations.apply Leaf.isImmutable constraint = .ok narrowing := outcome
      have annotations : (narrowing.writes.foldl record solver).annotations =
          narrowing.annotations := Store.annotations_foldl_record outcome
      have written : narrowing.writes.foldl store.record solver = solver.absorb narrowing := by
        rw [show store.record = record from rfl, foldl_record_eq_absorb, annotations]
      simp only [accepted, Except.map, written]

/-- Applying a constraint, to plain annotations or in a solver, is applying it in
place. It only takes qualifiers from leaves, and from none the last one, however
deep its sides are nested and whatever leaves they share. It reports a change
exactly if a leaf lost qualifiers, and changes nothing if it is refused. -/
theorem handle_removes {leaves : List Leaf} {constraint : Constraint}
    (places : SeparatePlaces leaves) (leftIncluded : constraint.left.leaves ⊆ leaves)
    (rightIncluded : constraint.right.leaves ⊆ leaves) :
    (∀ annotations : Annotations,
      annotations.applied constraint = Annotations.store.handle annotations constraint ∧
        Annotations.store.Handled leaves annotations (annotations.applied constraint)) ∧
      ∀ solver : Solver, solver.applied constraint = store.handle solver constraint ∧
        store.Handled leaves solver (solver.applied constraint) := by
  constructor
  · intro annotations
    rw [← Annotations.handle_eq_applied]
    exact ⟨rfl, Annotations.store.handle_handled annotations places leftIncluded rightIncluded⟩
  · intro solver
    rw [← handle_eq_applied]
    exact ⟨rfl, store.handle_handled solver places leftIncluded rightIncluded⟩

/-- A box that is the same as what is stored in it twice over. Its content is
sensitive, so only the box changes, which is a leaf of both sides. -/
theorem handle_removes_boxInItself :
    let content := LeafSpec.leaf
      { identifier := "content", kind := .field, declared := .only .sensitive } 0 0
    let box := LeafSpec.leaf { identifier := "box" } 0 1
    let stored : Value := .adapted .field 0 2 (.leaf content) (.leaf box)
    let within : Value := .adapted .field 0 3 stored stored
    let solver : Solver := { graph := { values := [.leaf content, .leaf box, stored, within] } }
    let result := solver.applied { relation := .equality, left := within, right := .leaf box }
    store.Handled [content, box] solver result ∧ result.2 = .ok true ∧
      result.1.annotations.get content = .only .sensitive ∧
      result.1.annotations.get box = .only .sensitive := by
  intro content box stored within solver result
  have removes := @handle_removes [content, box]
    { relation := .equality, left := within, right := .leaf box } (by decide) (by decide)
    (by decide)
  exact ⟨(removes.2 solver).2, by decide, by decide, by decide⟩

end Solver

end InfoFlow
