import Mathlib.Data.List.Induction
import InfoFlow.Proofs.ConstraintSet
import InfoFlow.ReverseFlow

/-! What reverse flows add to a set of constraints.

Whether a flow runs backwards depends on its two sides alike, so a reverse flow
runs backwards too. Its own reverse has the key of the flow it came from, which
was there before it. Hence a second round finds all that it asks for, whatever
order the flows were in and whichever of them were there from the start. -/

namespace InfoFlow

namespace Constraint

def reverse (constraint : Constraint) : Constraint :=
  .inferred constraint.right constraint.left [constraint]

@[simp] theorem reverse_relation (constraint : Constraint) :
    constraint.reverse.relation = .subtype := rfl

@[simp] theorem reverse_left (constraint : Constraint) :
    constraint.reverse.left = constraint.right := rfl

@[simp] theorem reverse_right (constraint : Constraint) :
    constraint.reverse.right = constraint.left := rfl

@[simp] theorem reverse_key (constraint : Constraint) :
    constraint.reverse.key = ⟨.subtype, constraint.right.id, constraint.left.id⟩ := rfl

theorem reverse_reverse_key {constraint : Constraint} (flow : constraint.relation = .subtype) :
    constraint.reverse.reverse.key = constraint.key := by
  simp [key, flow]

end Constraint

namespace ValueGraph

variable {graph : ValueGraph} {constraint forth member : Constraint}
  {constraints : ConstraintSet} {originals : List Constraint} {key : ConstraintKey}

def IsLibraryEnd (graph : ValueGraph) (value : Value) : Prop :=
  (value.kind = .parameter ∨ value.kind = .receiver ∨ value.kind = .result) ∧
    ∃ method, value.method = some method ∧ method ∈ graph.libraryMethods

/-- A flow may run backwards if nothing on it is read-only and it does not stay
between the ends of library methods. -/
structure Reversible (graph : ValueGraph) (constraint : Constraint) : Prop where
  flow : constraint.relation = .subtype
  left : graph.isReadOnly constraint.left = false
  right : graph.isReadOnly constraint.right = false
  outside : ¬ (graph.IsLibraryEnd constraint.left ∧ graph.IsLibraryEnd constraint.right)

theorem isLibraryEnd_iff {value : Value} : graph.IsLibraryEnd value ↔
    (value.isParameterOrResult && graph.isLibraryMethod value.method) = true := by
  rw [IsLibraryEnd, Bool.and_eq_true]
  refine and_congr ?_ ?_
  · rw [Value.isParameterOrResult]
    cases value.kind <;> simp
  · cases value.method <;> simp [isLibraryMethod]

theorem flowsBack_iff : graph.flowsBack constraint = true ↔ graph.Reversible constraint := by
  have within : graph.withinLibraryCall constraint = true ↔
      graph.IsLibraryEnd constraint.left ∧ graph.IsLibraryEnd constraint.right := by
    simp only [withinLibraryCall, isLibraryEnd_iff, Bool.and_eq_true]
    tauto
  rw [flowsBack, Bool.and_eq_true, Bool.and_eq_true, decide_eq_true_eq, Bool.not_eq_true',
    Bool.not_eq_true', Bool.or_eq_false_iff, ← Bool.not_eq_true (graph.withinLibraryCall _), within]
  constructor
  · rintro ⟨⟨flow, left, right⟩, outside⟩
    exact ⟨flow, left, right, outside⟩
  · rintro ⟨flow, left, right, outside⟩
    exact ⟨⟨flow, left, right⟩, outside⟩

theorem Reversible.reverse (reversible : graph.Reversible constraint) :
    graph.Reversible constraint.reverse where
  flow := rfl
  left := reversible.right
  right := reversible.left
  outside := fun both => reversible.outside both.symm

theorem withReverse_of_flowsBack (back : graph.flowsBack constraint = true) :
    graph.withReverse constraint = [constraint, constraint.reverse] := by
  rw [withReverse, if_pos back]
  rfl

theorem withReverse_of_not_flowsBack (stays : ¬ graph.flowsBack constraint = true) :
    graph.withReverse constraint = [constraint] := by
  rw [withReverse, if_neg stays]

theorem mem_withReverse : member ∈ graph.withReverse forth ↔
    member = forth ∨ graph.flowsBack forth = true ∧ member = forth.reverse := by
  by_cases back : graph.flowsBack forth = true
  · simp [withReverse_of_flowsBack back, back]
  · simp [withReverse_of_not_flowsBack back, back]

/-! ## Constraints with their reverse flows -/

def upgrade (graph : ValueGraph) (originals : List Constraint) : ConstraintSet :=
  .ofList (originals.flatMap graph.withReverse)

theorem upgrade_concat (graph : ValueGraph) (originals : List Constraint)
    (constraint : Constraint) :
    graph.upgrade (originals ++ [constraint]) =
      (graph.upgrade originals).addAll (graph.withReverse constraint) := by
  rw [upgrade, List.flatMap_append, List.flatMap_singleton, ConstraintSet.ofList,
    ConstraintSet.addAll_append]
  rfl

theorem upgrade_append (graph : ValueGraph) (originals : List Constraint)
    (constraint : Constraint) :
    graph.upgrade (originals ++ [constraint]) =
      if graph.flowsBack constraint then
        ((graph.upgrade originals).add constraint).add
          (.inferred constraint.right constraint.left [constraint])
      else (graph.upgrade originals).add constraint := by
  rw [upgrade_concat, withReverse]
  split <;> rfl

theorem mem_keys_upgrade :
    key ∈ (graph.upgrade originals).keys ↔
      ∃ origin, origin ∈ originals ∧ (key = origin.key ∨
        graph.flowsBack origin = true ∧ key = ⟨.subtype, origin.right.id, origin.left.id⟩) := by
  have none : ¬ key ∈ ({} : ConstraintSet).keys := List.not_mem_nil
  rw [upgrade, ConstraintSet.ofList, ConstraintSet.mem_keys_addAll, or_iff_right none,
    List.map_flatMap, List.mem_flatMap]
  refine exists_congr fun origin => and_congr_right fun _ => ?_
  unfold withReverse
  split <;> simp [*]

theorem mem_upgrade (present : member ∈ (graph.upgrade originals).toList) :
    member ∈ originals ∨
      ∃ origin, origin ∈ originals ∧ graph.flowsBack origin = true ∧ member = origin.reverse := by
  rcases List.mem_flatMap.mp (ConstraintSet.ofList_subset present) with ⟨origin, known, made⟩
  rcases mem_withReverse.mp made with rfl | ⟨back, rfl⟩
  · exact .inl known
  · exact .inr ⟨origin, known, back, rfl⟩

theorem upgrade_add (graph : ValueGraph) (constraints : ConstraintSet) (constraint : Constraint) :
    graph.upgrade (constraints.add constraint).toList =
      if constraint.key ∈ constraints.keys then graph.upgrade constraints.toList
      else (graph.upgrade constraints.toList).addAll (graph.withReverse constraint) := by
  split
  · next known => rw [ConstraintSet.add_of_contains known]
  · next new => rw [ConstraintSet.toList_add_of_new new, upgrade_concat]

theorem upgrade_addAll_withReverse (settled : graph.upgrade constraints.toList = constraints) :
    graph.upgrade (constraints.addAll (graph.withReverse constraint)).toList =
      constraints.addAll (graph.withReverse constraint) := by
  by_cases back : graph.flowsBack constraint = true
  · have reversible := flowsBack_iff.mp back
    have both := withReverse_of_flowsBack back
    have bothAgain := withReverse_of_flowsBack (flowsBack_iff.mpr reversible.reverse)
    let forwards := constraints.add constraint
    let whole := forwards.add constraint.reverse
    have onForwards : graph.upgrade forwards.toList = forwards ∨
        graph.upgrade forwards.toList = whole := by
      rw [upgrade_add, settled, both]
      split
      · next known => exact .inl (ConstraintSet.add_of_contains known).symm
      · exact .inr rfl
    have repeated : whole.add constraint.reverse = whole :=
      ConstraintSet.add_of_contains (ConstraintSet.mem_keys_add.mpr (.inr rfl))
    have returned : whole.add constraint.reverse.reverse = whole := by
      apply ConstraintSet.add_of_contains
      rw [Constraint.reverse_reverse_key reversible.flow]
      exact ConstraintSet.mem_keys_add.mpr (.inl (ConstraintSet.mem_keys_add.mpr (.inr rfl)))
    have added : constraints.addAll (graph.withReverse constraint) = whole := by
      rw [both]
      rfl
    rw [added, upgrade_add, bothAgain]
    split
    · next known =>
        have unchanged : whole = forwards := ConstraintSet.add_of_contains known
        rcases onForwards with same | same <;> simp [same, unchanged]
    · have ended : ∀ base : ConstraintSet, base.add constraint.reverse = whole →
          base.addAll [constraint.reverse, constraint.reverse.reverse] = whole := by
        rintro base equal
        rw [ConstraintSet.addAll_cons, equal]
        exact returned
      rcases onForwards with same | same <;> rw [same]
      · exact ended forwards rfl
      · exact ended whole repeated
  · rw [withReverse_of_not_flowsBack back]
    have single : constraints.addAll [constraint] = constraints.add constraint := rfl
    rw [single, upgrade_add, settled, withReverse_of_not_flowsBack back, single]
    split
    · next known => rw [ConstraintSet.add_of_contains known]
    · rfl

theorem upgrade_upgrade (graph : ValueGraph) (originals : List Constraint) :
    graph.upgrade (graph.upgrade originals).toList = graph.upgrade originals := by
  induction originals using List.reverseRecOn with
  | nil => rfl
  | append_singleton earlier last induction =>
      rw [upgrade_concat]
      exact upgrade_addAll_withReverse induction

/-- What holds of a set with the reverse flows of some constraints. A member is
one of them as it was, or was inferred from one of them, and they and their
reverse flows are all in the set, each once. -/
structure Upgraded (graph : ValueGraph) (constraints result : ConstraintSet) : Prop where
  contains_iff : ∀ constraint, result.contains constraint = true ↔
    constraints.contains constraint = true ∨
      ∃ forth, forth ∈ constraints.toList ∧ graph.Reversible forth ∧
        constraint.same { relation := .subtype, left := forth.right, right := forth.left } = true
  members : ∀ member, member ∈ result.toList → member ∈ constraints.toList ∨
    ∃ forth, forth ∈ constraints.toList ∧ graph.Reversible forth ∧
      member = .inferred forth.right forth.left [forth]
  distinct : result.keys.Nodup

/-- The flows of a set that run backwards are added to it, and nothing else is.
Doing that again changes nothing. -/
theorem withReverseFlows_upgraded (graph : ValueGraph) (constraints : ConstraintSet) :
    graph.Upgraded constraints (graph.withReverseFlows constraints) ∧
      graph.withReverseFlows (graph.withReverseFlows constraints) =
        graph.withReverseFlows constraints := by
  refine ⟨⟨?_, ?_, ?_⟩, graph.upgrade_upgrade constraints.toList⟩
  · intro constraint
    rw [ConstraintSet.contains_iff, ConstraintSet.contains_iff]
    refine mem_keys_upgrade.trans ?_
    simp only [ConstraintSet.keys, List.mem_map, Constraint.same, decide_eq_true_eq,
      flowsBack_iff]
    constructor
    · rintro ⟨origin, known, same | back⟩
      · exact .inl ⟨origin, known, same.symm⟩
      · exact .inr ⟨origin, known, back⟩
    · rintro (⟨origin, known, same⟩ | ⟨origin, known, back⟩)
      · exact ⟨origin, known, .inl same.symm⟩
      · exact ⟨origin, known, .inr back⟩
  · intro member present
    rcases mem_upgrade present with known | ⟨origin, known, back, made⟩
    · exact .inl known
    · exact .inr ⟨origin, known, flowsBack_iff.mp back, made⟩
  · exact ConstraintSet.nodup_keys_ofList _

end ValueGraph

end InfoFlow
