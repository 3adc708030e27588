import InfoFlow.Proofs.Narrowing.Locality

/-! Annotations that only shrink.

A constraint fails exactly if no two qualifiers of its sides are related. So a
constraint that fails once fails for good, as long as no leaf gets a qualifier
back. A constraint that can be applied never takes the last qualifier of a
leaf. -/

namespace InfoFlow

namespace Relation

def solvable (relation : Relation) (left right : QualifierSet) : Bool :=
  left.any fun sub => right.any fun sup => decide (Assignment.Related relation sub sup)

/-- A relation exhausts a side exactly if no two qualifiers of the sides are
related. -/
theorem narrow_exhausted {relation : Relation} {left right newLeft newRight : QualifierSet}
    (narrowed : relation.narrow left right = some (newLeft, newRight)) :
    (newLeft = .empty ∨ newRight = .empty) ↔ relation.solvable left right = false := by
  have found : ∀ kept, relation.narrow left right = some kept →
      ((kept.1 = .empty ∨ kept.2 = .empty) ↔ relation.solvable left right = false) := by
    cases relation with
    | unspecified => exact fun _ none => by cases none
    | subtype | equality | unequality =>
        rintro kept ⟨⟩
        rcases left with ⟨_ | _, _ | _, _ | _⟩ <;> rcases right with ⟨_ | _, _ | _, _ | _⟩ <;>
          decide
  exact found (newLeft, newRight) narrowed

theorem solvable_mono {relation : Relation} {left right fewerLeft fewerRight : QualifierSet}
    (leftFewer : fewerLeft ⊆ left) (rightFewer : fewerRight ⊆ right)
    (solvable : relation.solvable fewerLeft fewerRight = true) :
    relation.solvable left right = true := by
  unfold Relation.solvable at solvable ⊢
  rcases QualifierSet.any_eq_true.mp solvable with ⟨sub, subMember, partner⟩
  rcases QualifierSet.any_eq_true.mp partner with ⟨sup, supMember, related⟩
  exact QualifierSet.any_eq_true.mpr ⟨sub, leftFewer sub subMember,
    QualifierSet.any_eq_true.mpr ⟨sup, rightFewer sup supMember, related⟩⟩

end Relation

namespace Annotations

variable {before middle after : Annotations} {leaves : List Leaf} {constraint : Constraint}

theorem fails_iff (specified : constraint.relation ≠ .unspecified) :
    before.Fails constraint ↔ constraint.relation.solvable (before.view constraint.left)
      (before.view constraint.right) = false := by
  rcases Relation.narrow_of_specified specified (before.view constraint.left)
    (before.view constraint.right) with ⟨newLeft, newRight, narrowed⟩
  rw [← Relation.narrow_exhausted narrowed]
  constructor
  · rintro ⟨left, right, failed⟩
    by_contra inhabited
    rw [not_or] at inhabited
    rw [apply_of_inhabited narrowed inhabited.1 inhabited.2] at failed
    cases failed
  · exact fun exhausted => ⟨_, _, apply_of_exhausted narrowed exhausted⟩

def Fewer (leaves : List Leaf) (before after : Annotations) : Prop :=
  ∀ leaf, leaf ∈ leaves → after.get leaf ⊆ before.get leaf

theorem Fewer.refl (leaves : List Leaf) (annotations : Annotations) :
    Fewer leaves annotations annotations :=
  fun _ _ => QualifierSet.subset_refl _

theorem Fewer.trans (first : Fewer leaves before middle) (second : Fewer leaves middle after) :
    Fewer leaves before after :=
  fun leaf member => QualifierSet.subset_trans (second leaf member) (first leaf member)

theorem Fewer.view_subset (fewer : Fewer leaves before after) {value : Value}
    (included : value.leaves ⊆ leaves) : after.view value ⊆ before.view value := by
  induction value with
  | leaf content => exact fewer content (included (by simp [Value.leaves]))
  | adapted adaptation owner id declaration context onDeclaration onContext =>
      have declared := onDeclaration fun leaf below =>
        included (List.mem_append_right _ below)
      have outer := onContext fun leaf below => included (List.mem_append_left _ below)
      intro qualifier member
      rw [view, QualifierSet.mem_adapt] at member ⊢
      rcases member with ⟨first, firstMember, second, secondMember, equal⟩
      exact ⟨first, outer first firstMember, second, declared second secondMember, equal⟩

theorem Fails.of_fewer (fails : before.Fails constraint)
    (specified : constraint.relation ≠ .unspecified) (fewer : Fewer leaves before after)
    (leftIncluded : constraint.left.leaves ⊆ leaves)
    (rightIncluded : constraint.right.leaves ⊆ leaves) : after.Fails constraint := by
  rw [fails_iff specified] at fails ⊢
  by_contra solvable
  rw [Bool.not_eq_false] at solvable
  have earlier := Relation.solvable_mono (fewer.view_subset leftIncluded)
    (fewer.view_subset rightIncluded) solvable
  rw [fails] at earlier
  cases earlier

/-- What holds of two annotations if qualifiers were taken from some leaves,
but neither all of a leaf's qualifiers nor any of an immutable one. -/
structure Shrinks (leaves : List Leaf) (before after : Annotations) : Prop where
  subset : ∀ leaf, leaf ∈ leaves → after.get leaf ⊆ before.get leaf
  inhabited : ∀ leaf, leaf ∈ leaves → before.get leaf ≠ .empty → after.get leaf ≠ .empty
  frozen : ∀ leaf, leaf ∈ leaves → leaf.isImmutable = true → after.get leaf = before.get leaf

theorem Shrinks.refl (leaves : List Leaf) (annotations : Annotations) :
    Shrinks leaves annotations annotations where
  subset := fun _ _ => QualifierSet.subset_refl _
  inhabited := fun _ _ inhabited => inhabited
  frozen := fun _ _ _ => rfl

theorem Shrinks.trans (first : Shrinks leaves before middle)
    (second : Shrinks leaves middle after) : Shrinks leaves before after where
  subset := fun leaf member =>
    QualifierSet.subset_trans (second.subset leaf member) (first.subset leaf member)
  inhabited := fun leaf member inhabited =>
    second.inhabited leaf member (first.inhabited leaf member inhabited)
  frozen := fun leaf member immutable =>
    (second.frozen leaf member immutable).trans (first.frozen leaf member immutable)

end Annotations

namespace Narrowing

theorem assign_get_self (frozen : Leaf → Bool) (narrowing : Narrowing) (leaf : Leaf)
    (qualifiers : QualifierSet) :
    (narrowing.assign frozen leaf qualifiers).annotations.get leaf =
      if frozen leaf then narrowing.annotations.get leaf else qualifiers := by
  rw [assign_eq]
  by_cases same : narrowing.annotations.get leaf = qualifiers
  · rw [if_pos (.inl same), same, ite_self]
  · cases frozen leaf with
    | true => simp
    | false => simp [same]

theorem assign_get_other {frozen : Leaf → Bool} {narrowing : Narrowing} {leaf other : Leaf}
    {qualifiers : QualifierSet} (different : Annotations.slot other ≠ Annotations.slot leaf) :
    (narrowing.assign frozen leaf qualifiers).annotations.get other =
      narrowing.annotations.get other := by
  rw [assign_eq]
  split
  · rfl
  · exact Annotations.set_other _ different _

theorem From.get {frozen : Leaf → Bool} {leaves : List Leaf} {start : Annotations}
    {narrowing : Narrowing} (places : SeparatePlaces leaves)
    (reached : From frozen leaves start narrowing) {leaf : Leaf} (member : leaf ∈ leaves) :
    narrowing.annotations.get leaf ⊆ start.get leaf ∧
      (frozen leaf = true → narrowing.annotations.get leaf = start.get leaf) := by
  induction reached with
  | unwritten => exact ⟨QualifierSet.subset_refl _, fun _ => rfl⟩
  | @written narrowing written after earlier writtenMember mutable smaller different induction =>
      by_cases same : leaf = written
      · rw [same] at induction ⊢
        rw [Annotations.set_same]
        refine ⟨QualifierSet.subset_trans smaller induction.1, fun immutable => ?_⟩
        rw [mutable] at immutable
        cases immutable
      · rw [Annotations.set_other _ fun samePlace =>
          same (places leaf written member writtenMember samePlace)]
        exact induction

theorem From.changed_iff {frozen : Leaf → Bool} {leaves : List Leaf} {start : Annotations}
    {narrowing : Narrowing} (places : SeparatePlaces leaves)
    (reached : From frozen leaves start narrowing) :
    narrowing.changed = true ↔
      ∃ leaf, leaf ∈ leaves ∧ narrowing.annotations.get leaf ≠ start.get leaf := by
  cases reached with
  | unwritten => simp [changed]
  | @written narrowing written after earlier writtenMember mutable smaller different =>
      refine iff_of_true (by simp [changed]) ⟨written, writtenMember, ?_⟩
      rw [Annotations.set_same]
      intro same
      have before := (earlier.get places writtenMember).1
      rw [← same] at before
      exact different (QualifierSet.ext fun qualifier => ⟨before qualifier, smaller qualifier⟩)

end Narrowing

namespace Annotations

variable {before : Annotations} {leaves : List Leaf} {constraint : Constraint}

theorem fewer_apply {narrowing : Narrowing} (places : SeparatePlaces leaves)
    (leftIncluded : constraint.left.leaves ⊆ leaves)
    (rightIncluded : constraint.right.leaves ⊆ leaves)
    (applied : before.apply Leaf.isImmutable constraint = .ok narrowing) :
    Fewer leaves before narrowing.annotations := by
  have reached := apply_from places leftIncluded rightIncluded applied
  exact fun _ member => (reached.get places member).1

/-- What a constraint leaves to its sides is possible for all their leaves at
once, however these are shared. -/
theorem exists_within_narrowed {newLeft newRight : QualifierSet}
    (places : SeparatePlaces (constraint.left.leaves ++ constraint.right.leaves))
    (narrowed : constraint.relation.narrow (before.view constraint.left)
      (before.view constraint.right) = some (newLeft, newRight))
    (leftInhabited : newLeft ≠ .empty) (rightInhabited : newRight ≠ .empty) :
    ∃ assignment : Assignment,
      assignment.Within before (constraint.left.leaves ++ constraint.right.leaves) ∧
        assignment.eval constraint.left ∈ newLeft ∧ assignment.eval constraint.right ∈ newRight := by
  have smaller := Relation.narrow_subset narrowed
  rcases QualifierSet.exists_mem leftInhabited with ⟨sub, subKept⟩
  rcases QualifierSet.exists_mem rightInhabited with ⟨sup, supKept⟩
  have within : ∀ wanted, (Assignment.preferring before
      (constraint.left.leaves ++ constraint.right.leaves) wanted).Within before
        (constraint.left.leaves ++ constraint.right.leaves) :=
    Assignment.preferring_within_both places (smaller.1 sub subKept) (smaller.2 sup supKept)
  by_cases leftSame : newLeft = before.view constraint.left
  · refine ⟨_, within sup, ?_, ?_⟩
    · rw [leftSame]
      exact Assignment.eval_mem_view ((within sup).subset constraint.left_below)
    · rw [Assignment.eval_preferring places constraint.right_below (smaller.2 sup supKept)]
      exact supKept
  · by_cases rightSame : newRight = before.view constraint.right
    · refine ⟨_, within sub, ?_, ?_⟩
      · rw [Assignment.eval_preferring places constraint.left_below (smaller.1 sub subKept)]
        exact subKept
      · rw [rightSame]
        exact Assignment.eval_mem_view ((within sub).subset constraint.right_below)
    · have same := Relation.narrow_both narrowed leftInhabited rightInhabited leftSame rightSame
      refine ⟨_, within sub, ?_, ?_⟩
      · rw [Assignment.eval_preferring places constraint.left_below (smaller.1 sub subKept)]
        exact subKept
      · rw [Assignment.eval_preferring places constraint.right_below
          (smaller.2 sub (same ▸ subKept))]
        exact same ▸ subKept

theorem apply_inhabited {frozen : Leaf → Bool} {narrowing : Narrowing}
    (places : SeparatePlaces leaves) (leftIncluded : constraint.left.leaves ⊆ leaves)
    (rightIncluded : constraint.right.leaves ⊆ leaves)
    (applied : before.apply frozen constraint = .ok narrowing) {leaf : Leaf}
    (member : leaf ∈ leaves) (inhabited : before.get leaf ≠ .empty) :
    narrowing.annotations.get leaf ≠ .empty := by
  have included : constraint.left.leaves ++ constraint.right.leaves ⊆ leaves :=
    List.append_subset.mpr ⟨leftIncluded, rightIncluded⟩
  by_cases below : leaf ∈ constraint.left.leaves ++ constraint.right.leaves
  · rcases apply_eq_ok applied with
      ⟨newLeft, newRight, narrowed, leftInhabited, rightInhabited, carriedOut⟩
    rcases exists_within_narrowed (places.subset included) narrowed leftInhabited
      rightInhabited with ⟨assignment, within, leftKept, rightKept⟩
    have stays : assignment (slot leaf) ∈
        (before.carryOut frozen constraint newLeft newRight).annotations.get leaf :=
      carryOut_within constraint.left_below constraint.right_below within leftKept rightKept leaf
        below
    rw [carriedOut]
    exact QualifierSet.ne_empty stays
  · have reached :=
      apply_from (places.subset included) constraint.left_below constraint.right_below applied
    rw [reached.get_other fun other otherBelow samePlace =>
      below (places leaf other member (included otherBelow) samePlace ▸ otherBelow)]
    exact inhabited

theorem shrinks_apply {narrowing : Narrowing} (places : SeparatePlaces leaves)
    (leftIncluded : constraint.left.leaves ⊆ leaves)
    (rightIncluded : constraint.right.leaves ⊆ leaves)
    (applied : before.apply Leaf.isImmutable constraint = .ok narrowing) :
    Shrinks leaves before narrowing.annotations := by
  have reached := apply_from places leftIncluded rightIncluded applied
  exact ⟨fun _ member => (reached.get places member).1,
    fun _ member => apply_inhabited places leftIncluded rightIncluded applied member,
    fun _ member => (reached.get places member).2⟩

end Annotations

end InfoFlow
