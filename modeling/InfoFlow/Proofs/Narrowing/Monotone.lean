import InfoFlow.Proofs.Narrowing.Shrinking

/-! Narrowing of annotations that carry fewer qualifiers.

A constraint leaves fewer qualifiers to annotations that had fewer. Of two
narrowings of one constraint each decides by itself which parts it writes, and
one may write a part that the other leaves alone. That makes no difference: a
part that is not written might as well be left all that it carries. -/

namespace InfoFlow

namespace Relation

variable {relation : Relation}
  {left right moreLeft moreRight newLeft newRight : QualifierSet}

private theorem exists_other (inhabited : right ≠ .empty) (several : right.size ≠ 1)
    (qualifier : Qualifier) : ∃ other, other ∈ right ∧ qualifier ≠ other := by
  have found : right.any (fun other => decide (qualifier ≠ other)) = true := by
    revert inhabited several
    rcases right with ⟨_ | _, _ | _, _ | _⟩ <;> cases qualifier <;> decide
  rcases QualifierSet.any_eq_true.mp found with ⟨other, member, different⟩
  exact ⟨other, member, of_decide_eq_true different⟩

theorem exists_partner (narrowed : relation.narrow left right = some (newLeft, newRight))
    (leftInhabited : left ≠ .empty) (rightInhabited : right ≠ .empty) :
    (∀ sub, sub ∈ newLeft → ∃ sup, sup ∈ right ∧ Assignment.Related relation sub sup) ∧
      ∀ sup, sup ∈ newRight → ∃ sub, sub ∈ left ∧ Assignment.Related relation sub sup := by
  cases relation with
  | unspecified => cases narrowed
  | subtype =>
      cases narrowed
      constructor
      · intro sub kept
        exact QualifierSet.any_eq_true.mp (QualifierSet.mem_filter.mp kept).2
      · intro sup kept
        rcases QualifierSet.any_eq_true.mp (QualifierSet.mem_filter.mp kept).2 with
          ⟨sub, member, below⟩
        exact ⟨sub, (QualifierSet.mem_filter.mp member).1, below⟩
  | equality =>
      cases narrowed
      constructor
      · intro sub kept
        exact ⟨sub, (QualifierSet.mem_inter.mp kept).2, rfl⟩
      · intro sup kept
        exact ⟨sup, (QualifierSet.mem_inter.mp kept).1, rfl⟩
  | unequality =>
      cases narrowed
      constructor
      · intro sub kept
        split at kept
        · rcases QualifierSet.exists_mem rightInhabited with ⟨sup, member⟩
          exact ⟨sup, member, fun same => (QualifierSet.mem_diff.mp kept).2 (same ▸ member)⟩
        · next several => exact exists_other rightInhabited several sub
      · intro sup kept
        split at kept
        · rcases QualifierSet.exists_mem leftInhabited with ⟨sub, member⟩
          exact ⟨sub, member, fun same => (QualifierSet.mem_diff.mp kept).2 (same ▸ member)⟩
        · next several =>
            rcases exists_other leftInhabited several sup with ⟨sub, member, different⟩
            exact ⟨sub, member, fun same => different same.symm⟩

theorem narrow_mono (leftFewer : left ⊆ moreLeft) (rightFewer : right ⊆ moreRight)
    (leftInhabited : left ≠ .empty) (rightInhabited : right ≠ .empty)
    (narrowed : relation.narrow left right = some (newLeft, newRight)) :
    ∃ moreNewLeft moreNewRight,
      relation.narrow moreLeft moreRight = some (moreNewLeft, moreNewRight) ∧
        newLeft ⊆ moreNewLeft ∧ newRight ⊆ moreNewRight := by
  have smaller := narrow_subset narrowed
  have partners := exists_partner narrowed leftInhabited rightInhabited
  rcases narrow_of_specified (specified_of_narrow narrowed) moreLeft moreRight with
    ⟨moreNewLeft, moreNewRight, moreNarrowed⟩
  refine ⟨moreNewLeft, moreNewRight, moreNarrowed, ?_, ?_⟩
  · intro sub kept
    rcases partners.1 sub kept with ⟨sup, member, related⟩
    exact (mem_narrow_of_related moreNarrowed (leftFewer _ (smaller.1 _ kept))
      (rightFewer _ member) related).1
  · intro sup kept
    rcases partners.2 sup kept with ⟨sub, member, related⟩
    exact (mem_narrow_of_related moreNarrowed (leftFewer _ member)
      (rightFewer _ (smaller.2 _ kept)) related).2

end Relation

namespace Narrowing

variable {frozen : Leaf → Bool} {leaves : List Leaf} {assignment : Assignment}
  {narrowing less more : Narrowing} {value : Value}
  {contexts declared allowed moreContexts moreDeclared moreAllowed : QualifierSet}
  {seen kept moreKept : QualifierSet}

theorem keptDeclared_mono (contextsFewer : contexts ⊆ moreContexts)
    (declaredFewer : declared ⊆ moreDeclared) (allowedFewer : allowed ⊆ moreAllowed) :
    keptDeclared contexts declared allowed ⊆
      keptDeclared moreContexts moreDeclared moreAllowed := by
  intro qualifier member
  rcases mem_keptDeclared.mp member with ⟨present, outer, outerMember, permitted⟩
  apply mem_keptDeclared.mpr
  exact ⟨declaredFewer _ present, outer, contextsFewer _ outerMember, allowedFewer _ permitted⟩

theorem keptContexts_mono (contextsFewer : contexts ⊆ moreContexts)
    (declaredFewer : declared ⊆ moreDeclared) (allowedFewer : allowed ⊆ moreAllowed) :
    keptContexts contexts declared allowed ⊆
      keptContexts moreContexts moreDeclared moreAllowed := by
  intro qualifier member
  rcases mem_keptContexts.mp member with ⟨present, inner, innerMember, permitted⟩
  apply mem_keptContexts.mpr
  exact ⟨contextsFewer _ present, inner, declaredFewer _ innerMember, allowedFewer _ permitted⟩

private theorem kept_of_all (contextsInhabited : contexts ≠ .empty)
    (declaredInhabited : declared ≠ .empty) :
    keptDeclared contexts declared (contexts.adapt declared) = declared ∧
      keptContexts contexts declared (contexts.adapt declared) = contexts := by
  rcases QualifierSet.exists_mem contextsInhabited with ⟨outer, outerMember⟩
  rcases QualifierSet.exists_mem declaredInhabited with ⟨inner, innerMember⟩
  constructor
  · apply QualifierSet.ext
    intro qualifier
    refine ⟨fun member => (mem_keptDeclared.mp member).1, fun member => ?_⟩
    exact mem_keptDeclared.mpr ⟨member, outer, outerMember,
      QualifierSet.mem_adapt.mpr ⟨outer, outerMember, qualifier, member, rfl⟩⟩
  · apply QualifierSet.ext
    intro qualifier
    refine ⟨fun member => (mem_keptContexts.mp member).1, fun member => ?_⟩
    exact mem_keptContexts.mpr ⟨member, inner, innerMember,
      QualifierSet.mem_adapt.mpr ⟨qualifier, member, inner, innerMember, rfl⟩⟩

theorem write_view (inhabited : narrowing.annotations.view value ≠ .empty) :
    narrowing.write frozen value (narrowing.annotations.view value) = narrowing := by
  cases value with
  | leaf content => simp [write, assign_eq, Annotations.view]
  | adapted adaptation owner id declaration context =>
      have parts := mt QualifierSet.adapt_eq_empty.mpr inhabited
      rw [not_or] at parts
      have all := kept_of_all parts.1 parts.2
      simp only [write_adapted, Annotations.view, all.1, all.2, revise, if_true]

/-- A write leaves fewer qualifiers to narrowings that had fewer, if fewer are
allowed. The assignment keeps every leaf from losing all of them. -/
def WritesMonotone (frozen : Leaf → Bool) (leaves : List Leaf) (value : Value) : Prop :=
  ∀ (assignment : Assignment) (less more : Narrowing) (kept moreKept : QualifierSet),
    assignment.Within less.annotations leaves → assignment.eval value ∈ kept → kept ⊆ moreKept →
      Annotations.Fewer leaves more.annotations less.annotations →
        Annotations.Fewer leaves (more.write frozen value moreKept).annotations
          (less.write frozen value kept).annotations

theorem WritesMonotone.fewer (monotone : WritesMonotone frozen leaves value)
    (within : assignment.Within narrowing.annotations leaves)
    (evaluated : assignment.eval value ∈ kept)
    (possible : kept ⊆ narrowing.annotations.view value) :
    Annotations.Fewer leaves narrowing.annotations
      (narrowing.write frozen value kept).annotations := by
  have below := monotone assignment narrowing narrowing kept _ within evaluated possible
    (.refl leaves _)
  rwa [write_view (QualifierSet.ne_empty (possible _ evaluated))] at below

theorem WritesMonotone.revise_fewer (monotone : WritesMonotone frozen leaves value)
    (seen : QualifierSet) (within : assignment.Within narrowing.annotations leaves)
    (evaluated : assignment.eval value ∈ kept)
    (possible : kept ⊆ narrowing.annotations.view value) :
    Annotations.Fewer leaves narrowing.annotations
      (narrowing.revise frozen value seen kept).annotations := by
  rw [Narrowing.revise]
  split
  · exact .refl leaves _
  · exact monotone.fewer within evaluated possible

/-- It makes no difference which of the two narrowings leaves the value alone,
since a value that is not written might be left all that it carries. -/
theorem WritesMonotone.revise (monotone : WritesMonotone frozen leaves value)
    (moreSeen : QualifierSet) (included : value.leaves ⊆ leaves)
    (within : assignment.Within less.annotations leaves)
    (evaluated : assignment.eval value ∈ kept) (keptFewer : kept ⊆ moreKept)
    (fewer : Annotations.Fewer leaves more.annotations less.annotations)
    (current : less.annotations.view value ⊆ seen)
    (possible : kept ≠ seen → kept ⊆ less.annotations.view value) :
    Annotations.Fewer leaves (more.revise frozen value moreSeen moreKept).annotations
      (less.revise frozen value seen kept).annotations := by
  by_cases same : kept = seen
  · rw [Narrowing.revise, Narrowing.revise, if_pos same]
    split
    · exact fewer
    · have carried := Assignment.eval_mem_view (within.subset included)
      have allowed := QualifierSet.subset_trans (same ▸ current) keptFewer
      have below := monotone assignment less more _ moreKept within carried allowed fewer
      rwa [write_view (QualifierSet.ne_empty carried)] at below
  · rw [Narrowing.revise, Narrowing.revise, if_neg same]
    split
    · exact fewer.trans (monotone.fewer within evaluated (possible same))
    · exact monotone assignment less more kept moreKept within evaluated keptFewer fewer

theorem assign_mono (places : SeparatePlaces leaves) {leaf : Leaf} (member : leaf ∈ leaves)
    (keptFewer : kept ⊆ moreKept)
    (fewer : Annotations.Fewer leaves more.annotations less.annotations) :
    Annotations.Fewer leaves (more.assign frozen leaf moreKept).annotations
      (less.assign frozen leaf kept).annotations := by
  intro other otherMember
  by_cases same : other = leaf
  · rw [same, assign_get_self, assign_get_self]
    split
    · exact fewer leaf member
    · exact keptFewer
  · have apart : Annotations.slot other ≠ Annotations.slot leaf := fun samePlace =>
      same (places other leaf otherMember member samePlace)
    rw [assign_get_other apart, assign_get_other apart]
    exact fewer other otherMember

theorem writesMonotone (frozen : Leaf → Bool) (places : SeparatePlaces leaves)
    (included : value.leaves ⊆ leaves) : WritesMonotone frozen leaves value := by
  induction value with
  | leaf content =>
      intro assignment less more kept moreKept _ _ keptFewer fewer
      exact assign_mono places (included (by simp [Value.leaves])) keptFewer fewer
  | adapted adaptation owner id declaration context onDeclaration onContext =>
      have declarationIncluded : declaration.leaves ⊆ leaves :=
        fun leaf below => included (List.mem_append_right _ below)
      have contextIncluded : context.leaves ⊆ leaves :=
        fun leaf below => included (List.mem_append_left _ below)
      intro assignment less more allowed moreAllowed within evaluated allowedFewer fewer
      have kept := eval_kept declarationIncluded contextIncluded within evaluated
      have contextsFewer := fewer.view_subset contextIncluded
      have declaredFewer := fewer.view_subset declarationIncluded
      have newDeclaredFewer := keptDeclared_mono contextsFewer declaredFewer allowedFewer
      have newContextsFewer := keptContexts_mono contextsFewer newDeclaredFewer allowedFewer
      have possible : keptDeclared (less.annotations.view context)
          (less.annotations.view declaration) allowed ⊆ less.annotations.view declaration :=
        QualifierSet.filter_subset _ _
      have afterDeclaration := (onDeclaration declarationIncluded).revise
        (more.annotations.view declaration) declarationIncluded within kept.1 newDeclaredFewer fewer
        (QualifierSet.subset_refl _) fun _ => possible
      have removed := (onDeclaration declarationIncluded).revise_fewer
        (less.annotations.view declaration) within kept.1 possible
      rw [write_adapted, write_adapted]
      exact (onContext contextIncluded).revise (more.annotations.view context) contextIncluded
        (revise_within declarationIncluded within kept.1) kept.2 newContextsFewer afterDeclaration
        (removed.view_subset contextIncluded)
        (keptContexts_possible places declarationIncluded contextIncluded)

end Narrowing

namespace Annotations

variable {less more : Annotations} {frozen : Leaf → Bool} {leaves : List Leaf}
  {constraint : Constraint} {newLeft newRight moreNewLeft moreNewRight : QualifierSet}

theorem carryOut_mono
    (places : SeparatePlaces (constraint.left.leaves ++ constraint.right.leaves))
    (fewer : Fewer (constraint.left.leaves ++ constraint.right.leaves) more less)
    (narrowed : constraint.relation.narrow (less.view constraint.left)
      (less.view constraint.right) = some (newLeft, newRight))
    (leftInhabited : newLeft ≠ .empty) (rightInhabited : newRight ≠ .empty)
    (leftFewer : newLeft ⊆ moreNewLeft) (rightFewer : newRight ⊆ moreNewRight) :
    Fewer (constraint.left.leaves ++ constraint.right.leaves)
      (more.carryOut frozen constraint moreNewLeft moreNewRight).annotations
      (less.carryOut frozen constraint newLeft newRight).annotations := by
  have smaller := Relation.narrow_subset narrowed
  rcases exists_within_narrowed places narrowed leftInhabited rightInhabited with
    ⟨assignment, within, leftKept, rightKept⟩
  let start : Narrowing := { annotations := less }
  have leftMonotone := Narrowing.writesMonotone frozen places constraint.left_below
  have rightMonotone := Narrowing.writesMonotone frozen places constraint.right_below
  have afterLeft : Fewer (constraint.left.leaves ++ constraint.right.leaves)
      (Narrowing.revise frozen { annotations := more } constraint.left
        (more.view constraint.left) moreNewLeft).annotations
      (start.revise frozen constraint.left (less.view constraint.left) newLeft).annotations :=
    leftMonotone.revise (more.view constraint.left) constraint.left_below within leftKept leftFewer
      fewer (QualifierSet.subset_refl _) fun _ => smaller.1
  have removed : Fewer (constraint.left.leaves ++ constraint.right.leaves) less
      (start.revise frozen constraint.left (less.view constraint.left) newLeft).annotations :=
    leftMonotone.revise_fewer (less.view constraint.left) within leftKept smaller.1
  rw [carryOut_eq_revise, carryOut_eq_revise]
  exact rightMonotone.revise (more.view constraint.right) constraint.right_below
    (Narrowing.revise_within constraint.left_below within leftKept) rightKept rightFewer afterLeft
    (removed.view_subset constraint.right_below)
    (newRight_possible frozen places constraint.left_below constraint.right_below narrowed
      leftInhabited rightInhabited)

theorem apply_mono {narrowing : Narrowing} (places : SeparatePlaces leaves)
    (leftIncluded : constraint.left.leaves ⊆ leaves)
    (rightIncluded : constraint.right.leaves ⊆ leaves) (fewer : Fewer leaves more less)
    (applied : less.apply frozen constraint = .ok narrowing) :
    ∃ moreNarrowing, more.apply frozen constraint = .ok moreNarrowing ∧
      Fewer leaves moreNarrowing.annotations narrowing.annotations := by
  rcases apply_eq_ok applied with
    ⟨newLeft, newRight, narrowed, leftInhabited, rightInhabited, carriedOut⟩
  have smaller := Relation.narrow_subset narrowed
  rcases QualifierSet.exists_mem leftInhabited with ⟨sub, subKept⟩
  rcases QualifierSet.exists_mem rightInhabited with ⟨sup, supKept⟩
  rcases Relation.narrow_mono (fewer.view_subset leftIncluded) (fewer.view_subset rightIncluded)
    (QualifierSet.ne_empty (smaller.1 sub subKept)) (QualifierSet.ne_empty (smaller.2 sup supKept))
    narrowed with ⟨moreNewLeft, moreNewRight, moreNarrowed, leftFewer, rightFewer⟩
  have moreApplied : more.apply frozen constraint =
      .ok (more.carryOut frozen constraint moreNewLeft moreNewRight) :=
    apply_of_inhabited moreNarrowed (QualifierSet.ne_empty (leftFewer sub subKept))
      (QualifierSet.ne_empty (rightFewer sup supKept))
  refine ⟨_, moreApplied, fun leaf member => ?_⟩
  have included : constraint.left.leaves ++ constraint.right.leaves ⊆ leaves :=
    List.append_subset.mpr ⟨leftIncluded, rightIncluded⟩
  by_cases below : leaf ∈ constraint.left.leaves ++ constraint.right.leaves
  · rw [carriedOut]
    exact carryOut_mono (places.subset included) (fun other otherBelow =>
      fewer other (included otherBelow)) narrowed leftInhabited rightInhabited leftFewer rightFewer
      leaf below
  · have apart : ∀ written, written ∈ constraint.left.leaves ++ constraint.right.leaves →
        slot leaf ≠ slot written := fun written writtenBelow samePlace =>
      below (places leaf written member (included writtenBelow) samePlace ▸ writtenBelow)
    have sides := places.subset included
    rw [(apply_from sides constraint.left_below constraint.right_below moreApplied).get_other apart,
      (apply_from sides constraint.left_below constraint.right_below applied).get_other apart]
    exact fewer leaf member

end Annotations

end InfoFlow
