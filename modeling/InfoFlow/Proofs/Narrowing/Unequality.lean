import InfoFlow.Proofs.Narrowing.Shrinking

/-! Unequalities of leaves.

An unequality takes a qualifier from a side only if it is the single one of the
other side. When it has done so its sides are apart, and they stay apart as
annotations shrink. -/

namespace InfoFlow

namespace QualifierSet

theorem eq_only_of_size_le {qualifiers : QualifierSet} {qualifier : Qualifier}
    (single : qualifiers.size ≤ 1) (member : qualifier ∈ qualifiers) :
    qualifiers = only qualifier := by
  revert single member
  rcases qualifiers with ⟨_ | _, _ | _, _ | _⟩ <;> cases qualifier <;> decide

theorem eq_only_of_subset {qualifiers : QualifierSet} {qualifier : Qualifier}
    (included : qualifiers ⊆ only qualifier) (inhabited : qualifiers ≠ empty) :
    qualifiers = only qualifier := by
  revert included inhabited
  rcases qualifiers with ⟨_ | _, _ | _, _ | _⟩ <;> cases qualifier <;> decide

theorem diff_only_of_not_mem {qualifiers : QualifierSet} {qualifier : Qualifier}
    (absent : ¬ qualifier ∈ qualifiers) : qualifiers.diff (only qualifier) = qualifiers := by
  revert absent
  rcases qualifiers with ⟨_ | _, _ | _, _ | _⟩ <;> cases qualifier <;> decide

theorem diff_only_ne_empty {qualifiers : QualifierSet} {qualifier other : Qualifier}
    (member : other ∈ qualifiers) (different : other ≠ qualifier) :
    qualifiers.diff (only qualifier) ≠ empty := by
  intro nothing
  have kept : other ∈ qualifiers.diff (only qualifier) :=
    mem_diff.mpr ⟨member, fun same => different (mem_only.mp same)⟩
  rw [nothing] at kept
  exact not_mem_empty _ kept

theorem only_ne_empty (qualifier : Qualifier) : only qualifier ≠ empty := by
  cases qualifier <;> decide

end QualifierSet

namespace Relation

variable {qualifiers : QualifierSet} {qualifier other : Qualifier}

theorem narrow_unequality_right (member : other ∈ qualifiers) (different : other ≠ qualifier) :
    unequality.narrow qualifiers (.only qualifier) =
      some (qualifiers.diff (.only qualifier), .only qualifier) := by
  revert member different
  rcases qualifiers with ⟨_ | _, _ | _, _ | _⟩ <;> cases qualifier <;> cases other <;> decide

theorem narrow_unequality_left (member : other ∈ qualifiers) (different : other ≠ qualifier) :
    unequality.narrow (.only qualifier) qualifiers =
      some (.only qualifier, qualifiers.diff (.only qualifier)) := by
  revert member different
  rcases qualifiers with ⟨_ | _, _ | _, _ | _⟩ <;> cases qualifier <;> cases other <;> decide

theorem narrow_unequality_of_many {left right : QualifierSet} (leftMany : ¬ left.size ≤ 1)
    (rightMany : ¬ right.size ≤ 1) : unequality.narrow left right = some (left, right) := by
  have notLeft : left.size ≠ 1 := fun single => leftMany (by omega)
  have notRight : right.size ≠ 1 := fun single => rightMany (by omega)
  simp only [narrow, if_neg notLeft, if_neg notRight]

end Relation

namespace Annotations

variable {annotations before after : Annotations} {leaves : List Leaf} {free single : Leaf}
  {constraint : Constraint}

/-- A leaf has a single qualifier, and another leaf carries different ones and
has lost that one, unless it can lose none. -/
def Apart (annotations : Annotations) (free single : Leaf) : Prop :=
  ∃ qualifier, annotations.get single = .only qualifier ∧
    (∃ other, other ∈ annotations.get free ∧ other ≠ qualifier) ∧
    (free.isImmutable = true ∨ ¬ qualifier ∈ annotations.get free)

theorem Apart.of_shrinks (apart : before.Apart free single) (shrinks : Shrinks leaves before after)
    (freeMember : free ∈ leaves) (singleMember : single ∈ leaves) : after.Apart free single := by
  rcases apart with ⟨qualifier, only, ⟨other, member, different⟩, lost⟩
  have singleAfter : after.get single = .only qualifier := by
    have smaller := shrinks.subset single singleMember
    have inhabited := shrinks.inhabited single singleMember
      (only ▸ QualifierSet.only_ne_empty qualifier)
    rw [only] at smaller
    exact QualifierSet.eq_only_of_subset smaller inhabited
  refine ⟨qualifier, singleAfter, ?_⟩
  rcases lost with immutable | absent
  · have same := shrinks.frozen free freeMember immutable
    exact ⟨⟨other, same ▸ member, different⟩, .inl immutable⟩
  · have absentAfter : ¬ qualifier ∈ after.get free := fun present =>
      absent (shrinks.subset free freeMember qualifier present)
    have inhabited := shrinks.inhabited free freeMember (QualifierSet.ne_empty member)
    rcases QualifierSet.exists_mem inhabited with
      ⟨kept, keptMember⟩
    exact ⟨⟨kept, keptMember, fun equal => absentAfter (equal ▸ keptMember)⟩, .inr absentAfter⟩

private theorem carryOut_left {leaf : Leaf} {newLeft newRight : QualifierSet}
    (side : constraint.left = .leaf leaf) (same : newRight = annotations.view constraint.right) :
    annotations.carryOut Leaf.isImmutable constraint newLeft newRight =
      Narrowing.assign Leaf.isImmutable { annotations } leaf newLeft := by
  simp only [carryOut, if_pos same, side]
  split
  · next unchanged =>
      have kept : annotations.get leaf = newLeft := unchanged.symm
      rw [Narrowing.assign_eq, if_pos (.inl kept)]
  · rfl

private theorem carryOut_right {leaf : Leaf} {newLeft newRight : QualifierSet}
    (side : constraint.right = .leaf leaf) (same : newLeft = annotations.view constraint.left) :
    annotations.carryOut Leaf.isImmutable constraint newLeft newRight =
      Narrowing.assign Leaf.isImmutable { annotations } leaf newRight := by
  simp only [carryOut, if_pos same, side]
  split
  · next unchanged =>
      have kept : annotations.get leaf = newRight := unchanged.symm
      rw [Narrowing.assign_eq, if_pos (.inl kept)]
  · rfl

private theorem apply_unequality {qualifier other : Qualifier}
    (relation : constraint.relation = .unequality)
    (sides : constraint.left = .leaf free ∧ constraint.right = .leaf single ∨
      constraint.left = .leaf single ∧ constraint.right = .leaf free)
    (only : annotations.get single = .only qualifier) (member : other ∈ annotations.get free)
    (different : other ≠ qualifier) :
    annotations.apply Leaf.isImmutable constraint =
      .ok (Narrowing.assign Leaf.isImmutable { annotations } free
        ((annotations.get free).diff (.only qualifier))) := by
  have inhabited := QualifierSet.diff_only_ne_empty member different
  have singleInhabited := QualifierSet.only_ne_empty qualifier
  have singleView : annotations.view (.leaf single) = .only qualifier := only
  have freeView : annotations.view (.leaf free) = annotations.get free := rfl
  rcases sides with ⟨left, right⟩ | ⟨left, right⟩
  · have narrowed : constraint.relation.narrow (annotations.view constraint.left)
        (annotations.view constraint.right) =
          some ((annotations.get free).diff (.only qualifier), .only qualifier) := by
      rw [relation, left, right, singleView, freeView]
      exact Relation.narrow_unequality_right member different
    rw [apply_of_inhabited narrowed inhabited singleInhabited]
    exact congrArg Except.ok (carryOut_left left (right ▸ singleView.symm))
  · have narrowed : constraint.relation.narrow (annotations.view constraint.left)
        (annotations.view constraint.right) =
          some (.only qualifier, (annotations.get free).diff (.only qualifier)) := by
      rw [relation, left, right, singleView, freeView]
      exact Relation.narrow_unequality_left member different
    rw [apply_of_inhabited narrowed singleInhabited inhabited]
    exact congrArg Except.ok (carryOut_right right (left ▸ singleView.symm))

theorem Apart.stable (apart : annotations.Apart free single)
    (relation : constraint.relation = .unequality)
    (sides : constraint.left = .leaf free ∧ constraint.right = .leaf single ∨
      constraint.left = .leaf single ∧ constraint.right = .leaf free) :
    annotations.Stable constraint := by
  rcases apart with ⟨qualifier, only, ⟨other, member, different⟩, lost⟩
  rw [Stable, apply_unequality relation sides only member different, Narrowing.assign_eq, if_pos]
  rcases lost with immutable | absent
  · exact .inr immutable
  · exact .inl (QualifierSet.diff_only_of_not_mem absent).symm

private theorem apart_of_apply {qualifier other : Qualifier} {narrowing : Narrowing}
    (places : SeparatePlaces leaves) (freeMember : free ∈ leaves) (singleMember : single ∈ leaves)
    (relation : constraint.relation = .unequality)
    (sides : constraint.left = .leaf free ∧ constraint.right = .leaf single ∨
      constraint.left = .leaf single ∧ constraint.right = .leaf free)
    (only : before.get single = .only qualifier) (member : other ∈ before.get free)
    (different : other ≠ qualifier)
    (applied : before.apply Leaf.isImmutable constraint = .ok narrowing) :
    narrowing.annotations.Apart free single := by
  rw [apply_unequality relation sides only member different] at applied
  have elsewhere : slot single ≠ slot free := by
    intro samePlace
    have same := places single free singleMember freeMember samePlace
    rw [← same, only] at member
    exact different (QualifierSet.mem_only.mp member)
  rw [← Except.ok.inj applied]
  refine ⟨qualifier, ?_, ?_⟩
  · rw [Narrowing.assign_get_other elsewhere]
    exact only
  · rw [Narrowing.assign_get_self]
    split
    · next immutable => exact ⟨⟨other, member, different⟩, .inl immutable⟩
    · have kept : other ∈ (before.get free).diff (.only qualifier) :=
        QualifierSet.mem_diff.mpr ⟨member, fun same => different (QualifierSet.mem_only.mp same)⟩
      refine ⟨⟨other, kept, different⟩, .inr fun present => ?_⟩
      exact (QualifierSet.mem_diff.mp present).2 (QualifierSet.mem_only.mpr rfl)

theorem apart_of_single {left right : Leaf} {narrowing : Narrowing}
    (places : SeparatePlaces leaves) (leftMember : left ∈ leaves) (rightMember : right ∈ leaves)
    (relation : constraint.relation = .unequality) (leftSide : constraint.left = .leaf left)
    (rightSide : constraint.right = .leaf right)
    (applied : before.apply Leaf.isImmutable constraint = .ok narrowing)
    (few : (before.get left).size ≤ 1 ∨ (before.get right).size ≤ 1) :
    narrowing.annotations.Apart left right ∨ narrowing.annotations.Apart right left := by
  have specified : constraint.relation ≠ .unspecified := by
    rw [relation]
    decide
  have solvable : constraint.relation.solvable (before.view constraint.left)
      (before.view constraint.right) = true := by
    by_contra unsolvable
    rw [Bool.not_eq_true] at unsolvable
    rcases (fails_iff specified).mpr unsolvable with ⟨_, _, failed⟩
    rw [failed] at applied
    cases applied
  rw [relation, leftSide, rightSide] at solvable
  rcases QualifierSet.any_eq_true.mp solvable with ⟨sub, subMember, partner⟩
  rcases QualifierSet.any_eq_true.mp partner with ⟨sup, supMember, related⟩
  have different : sub ≠ sup := of_decide_eq_true related
  rcases few with leftFew | rightFew
  · have only := QualifierSet.eq_only_of_size_le leftFew subMember
    exact .inr (apart_of_apply places rightMember leftMember relation
      (.inr ⟨leftSide, rightSide⟩) only supMember different.symm applied)
  · have only := QualifierSet.eq_only_of_size_le rightFew supMember
    exact .inl (apart_of_apply places leftMember rightMember relation
      (.inl ⟨leftSide, rightSide⟩) only subMember different applied)

theorem stable_of_many (relation : constraint.relation = .unequality)
    (leftMany : ¬ (annotations.view constraint.left).size ≤ 1)
    (rightMany : ¬ (annotations.view constraint.right).size ≤ 1) :
    annotations.Stable constraint := by
  have narrowed : constraint.relation.narrow (annotations.view constraint.left)
      (annotations.view constraint.right) =
        some (annotations.view constraint.left, annotations.view constraint.right) := by
    rw [relation]
    exact Relation.narrow_unequality_of_many leftMany rightMany
  have inhabited : ∀ {qualifiers : QualifierSet}, ¬ qualifiers.size ≤ 1 →
      qualifiers ≠ .empty := by
    intro qualifiers many nothing
    rw [nothing] at many
    exact many (by decide)
  rw [Stable, apply_of_inhabited narrowed (inhabited leftMany) (inhabited rightMany)]
  simp [carryOut]

end Annotations

end InfoFlow
