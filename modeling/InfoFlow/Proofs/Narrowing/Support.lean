import InfoFlow.Proofs.Narrowing.Shrinking

/-! Families of qualifiers that constraints support.

A family gives each leaf a set of qualifiers. A constraint supports it if every
qualifier of one side has a partner on the other side. Narrowing takes nothing
away from a family that the constraint supports, and annotations that no
constraint changes any more are such a family. Among linearly ordered
qualifiers the greatest ones of such a family are partners of each other. -/

namespace InfoFlow

namespace QualifierSet

theorem filter_eq_self {qualifiers : QualifierSet} {keep : Qualifier → Bool} :
    qualifiers.filter keep = qualifiers ↔
      ∀ qualifier, qualifier ∈ qualifiers → keep qualifier = true := by
  constructor
  · intro all qualifier member
    rw [← all] at member
    exact (mem_filter.mp member).2
  · intro every
    refine ext fun qualifier => ?_
    rw [mem_filter, and_iff_left_iff_imp]
    exact every qualifier

theorem eq_of_subset_of_single {fewer qualifiers : QualifierSet} (included : fewer ⊆ qualifiers)
    (inhabited : fewer ≠ empty) (single : qualifiers.size = 1) : fewer = qualifiers := by
  revert included inhabited single
  rcases fewer with ⟨_ | _, _ | _, _ | _⟩ <;> rcases qualifiers with ⟨_ | _, _ | _, _ | _⟩ <;>
    decide

theorem isSubtype_prefer_top {qualifiers : QualifierSet} {qualifier : Qualifier}
    (member : qualifier ∈ qualifiers) :
    qualifier.isSubtype (qualifiers.prefer .top) = true := by
  revert member
  rcases qualifiers with ⟨_ | _, _ | _, _ | _⟩ <;> cases qualifier <;> decide

end QualifierSet

namespace Relation

variable {relation : Relation}
  {left middle right fewerLeft fewerRight newLeft newRight : QualifierSet}

/-- Every qualifier of one side has a partner on the other side. For an
equality this means that both sides are the same. -/
def Supported (relation : Relation) (left right : QualifierSet) : Prop :=
  (∀ sub, sub ∈ left → ∃ sup, sup ∈ right ∧ Assignment.Related relation sub sup) ∧
    ∀ sup, sup ∈ right → ∃ sub, sub ∈ left ∧ Assignment.Related relation sub sup

theorem supported_equality : Supported equality left right ↔ left = right := by
  constructor
  · rintro ⟨forth, back⟩
    refine QualifierSet.ext fun qualifier => ⟨fun member => ?_, fun member => ?_⟩
    · rcases forth qualifier member with ⟨partner, partnerMember, equal⟩
      have same : qualifier = partner := equal
      exact same ▸ partnerMember
    · rcases back qualifier member with ⟨partner, partnerMember, equal⟩
      have same : partner = qualifier := equal
      exact same ▸ partnerMember
  · rintro rfl
    exact ⟨fun qualifier member => ⟨qualifier, member, rfl⟩,
      fun qualifier member => ⟨qualifier, member, rfl⟩⟩

theorem Supported.trans (lower : Supported subtype left middle)
    (upper : Supported subtype middle right) : Supported subtype left right := by
  constructor
  · intro sub member
    rcases lower.1 sub member with ⟨between, betweenMember, below⟩
    rcases upper.1 between betweenMember with ⟨sup, supMember, above⟩
    exact ⟨sup, supMember, Qualifier.isSubtype_trans below above⟩
  · intro sup member
    rcases upper.2 sup member with ⟨between, betweenMember, above⟩
    rcases lower.2 between betweenMember with ⟨sub, subMember, below⟩
    exact ⟨sub, subMember, Qualifier.isSubtype_trans below above⟩

theorem supported_subtype_refl (qualifiers : QualifierSet) :
    Supported subtype qualifiers qualifiers :=
  ⟨fun qualifier member => ⟨qualifier, member, Qualifier.isSubtype_refl _⟩,
    fun qualifier member => ⟨qualifier, member, Qualifier.isSubtype_refl _⟩⟩

theorem Supported.forth (supported : relation.Supported left right)
    (flow : relation.isFlow = true) : Supported subtype left right := by
  cases relation with
  | unspecified | unequality => cases flow
  | subtype => exact supported
  | equality =>
      rw [supported_equality.mp supported]
      exact supported_subtype_refl right

theorem Supported.back (supported : equality.Supported left right) :
    Supported subtype right left := by
  rw [supported_equality.mp supported]
  exact supported_subtype_refl right

theorem Supported.subset_narrow (supported : relation.Supported fewerLeft fewerRight)
    (leftFewer : fewerLeft ⊆ left) (rightFewer : fewerRight ⊆ right)
    (narrowed : relation.narrow left right = some (newLeft, newRight)) :
    fewerLeft ⊆ newLeft ∧ fewerRight ⊆ newRight := by
  constructor
  · intro sub member
    rcases supported.1 sub member with ⟨sup, supMember, related⟩
    exact (mem_narrow_of_related narrowed (leftFewer _ member) (rightFewer _ supMember) related).1
  · intro sup member
    rcases supported.2 sup member with ⟨sub, subMember, related⟩
    exact (mem_narrow_of_related narrowed (leftFewer _ subMember) (rightFewer _ member) related).2

theorem supported_of_narrow (flow : relation.isFlow = true)
    (narrowed : relation.narrow left right = some (left, right)) :
    relation.Supported left right := by
  cases relation with
  | unspecified | unequality => cases flow
  | subtype =>
      have kept := Prod.mk.inj (Option.some.inj narrowed)
      constructor
      · intro sub member
        exact QualifierSet.any_eq_true.mp (QualifierSet.filter_eq_self.mp kept.1 sub member)
      · intro sup member
        rcases QualifierSet.any_eq_true.mp (QualifierSet.filter_eq_self.mp kept.2 sup member) with
          ⟨sub, subMember, below⟩
        exact ⟨sub, (QualifierSet.mem_filter.mp subMember).1, below⟩
  | equality =>
      have kept := Prod.mk.inj (Option.some.inj narrowed)
      exact supported_equality.mpr (kept.1.symm.trans kept.2)

theorem Supported.greatest (supported : relation.Supported left right)
    (flow : relation.isFlow = true) (inhabited : left ≠ .empty) :
    Assignment.Related relation (left.prefer .top) (right.prefer .top) := by
  cases relation with
  | unspecified | unequality => cases flow
  | subtype =>
      rcases QualifierSet.exists_mem inhabited with ⟨qualifier, member⟩
      rcases supported.1 _ (QualifierSet.prefer_mem member .top) with ⟨sup, supMember, below⟩
      exact Qualifier.isSubtype_trans below (QualifierSet.isSubtype_prefer_top supMember)
  | equality =>
      rw [supported_equality.mp supported]
      rfl

end Relation

/-- A set of qualifiers for each leaf. -/
abbrev Family := Leaf → QualifierSet

namespace Family

def view (family : Family) : Value → QualifierSet
  | .leaf content => family content
  | .adapted _ _ _ declaration context => (family.view context).adapt (family.view declaration)

def Supports (family : Family) (constraint : Constraint) : Prop :=
  constraint.relation.Supported (family.view constraint.left) (family.view constraint.right)

def Within (family : Family) (annotations : Annotations) (leaves : List Leaf) : Prop :=
  ∀ leaf, leaf ∈ leaves → family leaf ⊆ annotations.get leaf

variable {family : Family} {annotations : Annotations} {leaves : List Leaf}
  {constraint : Constraint} {left right : Leaf}

theorem view_get (annotations : Annotations) (value : Value) :
    view annotations.get value = annotations.view value := by
  induction value with
  | leaf content => rfl
  | adapted adaptation owner id declaration context onDeclaration onContext =>
      rw [view, onDeclaration, onContext, Annotations.view]

theorem within_assign {frozen : Leaf → Bool} {narrowing : Narrowing} {leaf : Leaf}
    {qualifiers : QualifierSet} (places : SeparatePlaces leaves)
    (within : family.Within narrowing.annotations leaves) (member : leaf ∈ leaves)
    (allowed : family leaf ⊆ qualifiers) :
    family.Within (narrowing.assign frozen leaf qualifiers).annotations leaves := by
  intro other otherMember
  by_cases same : other = leaf
  · rw [same, Narrowing.assign_get_self]
    split
    · exact within leaf member
    · exact allowed
  · have apart : Annotations.slot other ≠ Annotations.slot leaf := fun samePlace =>
      same (places other leaf otherMember member samePlace)
    rw [Narrowing.assign_get_other apart]
    exact within other otherMember

theorem within_apply {narrowing : Narrowing} (places : SeparatePlaces leaves)
    (leftSide : constraint.left = .leaf left) (rightSide : constraint.right = .leaf right)
    (leftMember : left ∈ leaves) (rightMember : right ∈ leaves)
    (within : family.Within annotations leaves) (supports : family.Supports constraint)
    (applied : annotations.apply Leaf.isImmutable constraint = .ok narrowing) :
    family.Within narrowing.annotations leaves := by
  rcases Annotations.apply_eq_ok applied with ⟨newLeft, newRight, narrowed, -, -, carriedOut⟩
  have supported : constraint.relation.Supported (family left) (family right) := by
    rw [Supports, leftSide, rightSide] at supports
    exact supports
  have kept : family left ⊆ newLeft ∧ family right ⊆ newRight := by
    rw [leftSide, rightSide] at narrowed
    exact supported.subset_narrow (within left leftMember) (within right rightMember) narrowed
  rw [carriedOut, Annotations.carryOut, leftSide, rightSide]
  simp only [Narrowing.write]
  have afterLeft : family.Within
      (if newLeft = annotations.view (.leaf left) then ({ annotations } : Narrowing)
        else Narrowing.assign Leaf.isImmutable { annotations } left newLeft).annotations leaves := by
    split
    · exact within
    · exact within_assign places within leftMember kept.1
  split
  · exact afterLeft
  · exact within_assign places afterLeft rightMember kept.2

end Family

namespace Annotations

variable {annotations : Annotations} {constraint : Constraint} {left right : Leaf}

private theorem assign_unwritten {frozen : Leaf → Bool} {narrowing : Narrowing} {leaf : Leaf}
    {qualifiers : QualifierSet}
    (unwritten : (narrowing.assign frozen leaf qualifiers).writes = []) :
    narrowing.assign frozen leaf qualifiers = narrowing ∧
      (qualifiers = narrowing.annotations.get leaf ∨ frozen leaf = true) := by
  rw [Narrowing.assign_eq] at unwritten ⊢
  split at unwritten
  · next reason =>
      rw [if_pos reason]
      exact ⟨rfl, reason.imp_left Eq.symm⟩
  · simp at unwritten

private theorem carryOut_unwritten {newLeft newRight : QualifierSet}
    (leftSide : constraint.left = .leaf left) (rightSide : constraint.right = .leaf right)
    (unwritten : (annotations.carryOut Leaf.isImmutable constraint newLeft newRight).writes = []) :
    (newLeft = annotations.get left ∨ left.isImmutable = true) ∧
      (newRight = annotations.get right ∨ right.isImmutable = true) := by
  simp only [carryOut, leftSide, rightSide, Narrowing.write] at unwritten
  by_cases leftSame : newLeft = annotations.view (.leaf left)
  · refine ⟨.inl leftSame, ?_⟩
    rw [if_pos leftSame] at unwritten
    split at unwritten
    · next rightSame => exact .inl rightSame
    · exact (assign_unwritten unwritten).2
  · rw [if_neg leftSame] at unwritten
    split at unwritten
    · next rightSame => exact ⟨(assign_unwritten unwritten).2, .inl rightSame⟩
    · have onRight := assign_unwritten unwritten
      rw [onRight.1] at unwritten
      have onLeft := assign_unwritten unwritten
      rw [onLeft.1] at onRight
      exact ⟨onLeft.2, onRight.2⟩

/-- A stable constraint between leaves narrows neither side, if every frozen
leaf has a single qualifier. -/
theorem Stable.narrow_self (stable : annotations.Stable constraint)
    (leftSide : constraint.left = .leaf left) (rightSide : constraint.right = .leaf right)
    (leftFixed : left.isImmutable = true → (annotations.get left).size = 1)
    (rightFixed : right.isImmutable = true → (annotations.get right).size = 1) :
    constraint.relation.narrow (annotations.get left) (annotations.get right) =
      some (annotations.get left, annotations.get right) := by
  rcases apply_eq_ok stable with
    ⟨newLeft, newRight, narrowed, leftInhabited, rightInhabited, carriedOut⟩
  have unwritten := congrArg Narrowing.writes carriedOut.symm
  rcases carryOut_unwritten leftSide rightSide unwritten with ⟨leftReason, rightReason⟩
  rw [leftSide, rightSide] at narrowed
  have subset := Relation.narrow_subset narrowed
  have whole : ∀ {leaf : Leaf} {qualifiers : QualifierSet},
      qualifiers ⊆ annotations.get leaf → qualifiers ≠ .empty →
      (leaf.isImmutable = true → (annotations.get leaf).size = 1) →
      (qualifiers = annotations.get leaf ∨ leaf.isImmutable = true) →
        qualifiers = annotations.get leaf := by
    intro leaf qualifiers included inhabited fixed reason
    rcases reason with same | frozen
    · exact same
    · exact QualifierSet.eq_of_subset_of_single included inhabited (fixed frozen)
  rw [whole subset.1 leftInhabited leftFixed leftReason,
    whole subset.2 rightInhabited rightFixed rightReason] at narrowed
  exact narrowed

theorem Stable.supports (stable : annotations.Stable constraint)
    (flow : constraint.isFlow = true)
    (leftSide : constraint.left = .leaf left) (rightSide : constraint.right = .leaf right)
    (leftFixed : left.isImmutable = true → (annotations.get left).size = 1)
    (rightFixed : right.isImmutable = true → (annotations.get right).size = 1) :
    Family.Supports annotations.get constraint := by
  have narrowed := stable.narrow_self leftSide rightSide leftFixed rightFixed
  rw [Family.Supports, Family.view_get, Family.view_get, leftSide, rightSide]
  exact Relation.supported_of_narrow flow narrowed

end Annotations

end InfoFlow
