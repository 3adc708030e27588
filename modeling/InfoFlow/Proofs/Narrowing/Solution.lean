import InfoFlow.Narrowing
import InfoFlow.Proofs.View

/-! Narrowing loses no solution.

A write that allows what an assignment gives to a value keeps the assignment
within the annotations, also if the value's parts share leaves and are written
one after the other. So a constraint can be applied whenever an assignment
within the annotations satisfies it, and the assignment stays within. -/

namespace InfoFlow

namespace Annotations

theorem get_set_of_slot (annotations : Annotations) {leaf other : Leaf}
    (samePlace : slot other = slot leaf) (qualifiers : QualifierSet) :
    (annotations.set leaf qualifiers).get other = qualifiers := by
  simp [get, set, samePlace]

end Annotations

namespace Constraint

theorem left_below (constraint : Constraint) :
    constraint.left.leaves ⊆ constraint.left.leaves ++ constraint.right.leaves :=
  List.subset_append_left _ _

theorem right_below (constraint : Constraint) :
    constraint.right.leaves ⊆ constraint.left.leaves ++ constraint.right.leaves :=
  List.subset_append_right _ _

end Constraint

namespace Assignment

theorem Within.subset {assignment : Assignment} {annotations : Annotations}
    {fewer leaves : List Leaf} (within : assignment.Within annotations leaves)
    (included : fewer ⊆ leaves) : assignment.Within annotations fewer :=
  fun leaf member => within leaf (included member)

end Assignment

namespace Relation

theorem narrow_of_specified {relation : Relation} (specified : relation ≠ .unspecified)
    (left right : QualifierSet) :
    ∃ newLeft newRight, relation.narrow left right = some (newLeft, newRight) := by
  cases relation with
  | unspecified => exact absurd rfl specified
  | subtype | equality | unequality => exact ⟨_, _, rfl⟩

theorem specified_of_narrow {relation : Relation} {left right : QualifierSet}
    {kept : QualifierSet × QualifierSet} (narrowed : relation.narrow left right = some kept) :
    relation ≠ .unspecified := by
  rintro rfl
  cases narrowed

theorem narrow_keeps {relation : Relation} (specified : relation ≠ .unspecified)
    {left right : QualifierSet} {sub sup : Qualifier} (leftMember : sub ∈ left)
    (rightMember : sup ∈ right) (related : Assignment.Related relation sub sup) :
    ∃ newLeft newRight, relation.narrow left right = some (newLeft, newRight) ∧
      sub ∈ newLeft ∧ sup ∈ newRight := by
  cases relation with
  | unspecified => exact absurd rfl specified
  | subtype =>
      have kept : sub ∈ left.filter fun sub => right.any fun sup => sub.isSubtype sup :=
        QualifierSet.mem_filter.mpr
          ⟨leftMember, QualifierSet.any_eq_true.mpr ⟨sup, rightMember, related⟩⟩
      exact ⟨_, _, rfl, kept, QualifierSet.mem_filter.mpr
        ⟨rightMember, QualifierSet.any_eq_true.mpr ⟨sub, kept, related⟩⟩⟩
  | equality =>
      have equal : sub = sup := related
      have shared : sub ∈ left.inter right :=
        QualifierSet.mem_inter.mpr ⟨leftMember, equal ▸ rightMember⟩
      exact ⟨_, _, rfl, shared, equal ▸ shared⟩
  | unequality =>
      have different : sub ≠ sup := related
      have onlyMember : ∀ {qualifiers : QualifierSet} {member other : Qualifier},
          qualifiers.size = 1 → member ∈ qualifiers → other ∈ qualifiers → member = other := by
        intro qualifiers member other
        revert qualifiers
        rintro ⟨_ | _, _ | _, _ | _⟩ <;> cases member <;> cases other <;> decide
      refine ⟨_, _, rfl, ?_, ?_⟩
      · split
        · next single =>
            exact QualifierSet.mem_diff.mpr
              ⟨leftMember, fun inRight => different (onlyMember single inRight rightMember)⟩
        · exact leftMember
      · split
        · next single =>
            exact QualifierSet.mem_diff.mpr
              ⟨rightMember, fun inLeft => different (onlyMember single leftMember inLeft)⟩
        · exact rightMember

theorem mem_narrow_of_related {relation : Relation} {left right newLeft newRight : QualifierSet}
    (narrowed : relation.narrow left right = some (newLeft, newRight)) {sub sup : Qualifier}
    (leftMember : sub ∈ left) (rightMember : sup ∈ right)
    (related : Assignment.Related relation sub sup) : sub ∈ newLeft ∧ sup ∈ newRight := by
  rcases narrow_keeps (specified_of_narrow narrowed) leftMember rightMember related with
    ⟨keptLeft, keptRight, again, subKept, supKept⟩
  cases narrowed.symm.trans again
  exact ⟨subKept, supKept⟩

end Relation

namespace Narrowing

variable {frozen : Leaf → Bool} {narrowing : Narrowing} {leaves : List Leaf}
  {assignment : Assignment}

theorem mem_keptDeclared {contexts declared allowed : QualifierSet} {qualifier : Qualifier} :
    qualifier ∈ keptDeclared contexts declared allowed ↔
      qualifier ∈ declared ∧ ∃ context, context ∈ contexts ∧ context.adapt qualifier ∈ allowed := by
  rw [keptDeclared, QualifierSet.mem_filter, QualifierSet.any_eq_true]
  exact Iff.rfl

theorem mem_keptContexts {contexts declared allowed : QualifierSet} {qualifier : Qualifier} :
    qualifier ∈ keptContexts contexts declared allowed ↔
      qualifier ∈ contexts ∧
        ∃ declaration, declaration ∈ declared ∧ qualifier.adapt declaration ∈ allowed := by
  rw [keptContexts, QualifierSet.mem_filter, QualifierSet.any_eq_true]
  exact Iff.rfl

theorem assign_eq (frozen : Leaf → Bool) (narrowing : Narrowing) (leaf : Leaf)
    (qualifiers : QualifierSet) :
    narrowing.assign frozen leaf qualifiers =
      if narrowing.annotations.get leaf = qualifiers ∨ frozen leaf = true then narrowing
      else
        { annotations := narrowing.annotations.set leaf qualifiers
          writes := narrowing.writes ++
            [⟨leaf, narrowing.annotations.get leaf, qualifiers⟩] } := by
  simp [assign]

theorem assign_within {leaf : Leaf} {qualifiers : QualifierSet}
    (within : assignment.Within narrowing.annotations leaves)
    (allowed : assignment (Annotations.slot leaf) ∈ qualifiers) :
    assignment.Within (narrowing.assign frozen leaf qualifiers).annotations leaves := by
  intro other member
  rw [assign_eq]
  split
  · exact within other member
  · by_cases samePlace : Annotations.slot other = Annotations.slot leaf
    · rw [Annotations.get_set_of_slot _ samePlace, samePlace]
      exact allowed
    · rw [Annotations.set_other _ samePlace]
      exact within other member

def revise (frozen : Leaf → Bool) (narrowing : Narrowing) (value : Value)
    (seen kept : QualifierSet) : Narrowing :=
  if kept = seen then narrowing else write frozen narrowing value kept

theorem write_adapted (frozen : Leaf → Bool) (narrowing : Narrowing) (adaptation : Adaptation)
    (owner id : Nat) (declaration context : Value) (allowed : QualifierSet) :
    narrowing.write frozen (.adapted adaptation owner id declaration context) allowed =
      let contexts := narrowing.annotations.view context
      let declared := narrowing.annotations.view declaration
      let newDeclared := keptDeclared contexts declared allowed
      (narrowing.revise frozen declaration declared newDeclared).revise frozen context contexts
        (keptContexts contexts newDeclared allowed) := rfl

theorem eval_kept {declaration context : Value} {allowed : QualifierSet}
    (declarationIncluded : declaration.leaves ⊆ leaves) (contextIncluded : context.leaves ⊆ leaves)
    (within : assignment.Within narrowing.annotations leaves)
    (evaluated : (assignment.eval context).adapt (assignment.eval declaration) ∈ allowed) :
    assignment.eval declaration ∈ keptDeclared (narrowing.annotations.view context)
        (narrowing.annotations.view declaration) allowed ∧
      assignment.eval context ∈ keptContexts (narrowing.annotations.view context)
        (keptDeclared (narrowing.annotations.view context)
          (narrowing.annotations.view declaration) allowed) allowed := by
  have inContexts : assignment.eval context ∈ narrowing.annotations.view context :=
    Assignment.eval_mem_view (within.subset contextIncluded)
  have inDeclared : assignment.eval declaration ∈ narrowing.annotations.view declaration :=
    Assignment.eval_mem_view (within.subset declarationIncluded)
  have declarationKept := mem_keptDeclared.mpr ⟨inDeclared, _, inContexts, evaluated⟩
  exact ⟨declarationKept, mem_keptContexts.mpr ⟨inContexts, _, declarationKept, evaluated⟩⟩

theorem write_within {value : Value} {allowed : QualifierSet} (included : value.leaves ⊆ leaves)
    (within : assignment.Within narrowing.annotations leaves)
    (evaluated : assignment.eval value ∈ allowed) :
    assignment.Within (narrowing.write frozen value allowed).annotations leaves := by
  induction value generalizing narrowing allowed with
  | leaf content => exact assign_within within evaluated
  | adapted adaptation owner id declaration context onDeclaration onContext =>
      have declarationIncluded : declaration.leaves ⊆ leaves :=
        fun leaf below => included (List.mem_append_right _ below)
      have contextIncluded : context.leaves ⊆ leaves :=
        fun leaf below => included (List.mem_append_left _ below)
      have kept := eval_kept declarationIncluded contextIncluded within evaluated
      have afterDeclaration : assignment.Within
          (narrowing.revise frozen declaration (narrowing.annotations.view declaration)
            (keptDeclared (narrowing.annotations.view context)
              (narrowing.annotations.view declaration) allowed)).annotations leaves := by
        rw [revise]
        split
        · exact within
        · exact onDeclaration declarationIncluded within kept.1
      rw [write_adapted]
      dsimp only
      rw [revise]
      split
      · exact afterDeclaration
      · exact onContext contextIncluded afterDeclaration kept.2

theorem revise_within {value : Value} {seen kept : QualifierSet} (included : value.leaves ⊆ leaves)
    (within : assignment.Within narrowing.annotations leaves)
    (evaluated : assignment.eval value ∈ kept) :
    assignment.Within (narrowing.revise frozen value seen kept).annotations leaves := by
  rw [revise]
  split
  · exact within
  · exact write_within included within evaluated

end Narrowing

namespace Annotations

variable {annotations : Annotations} {frozen : Leaf → Bool} {leaves : List Leaf}
  {assignment : Assignment} {constraint : Constraint} {newLeft newRight : QualifierSet}

/-! ## The outcomes of a constraint -/

def carryOut (annotations : Annotations) (frozen : Leaf → Bool) (constraint : Constraint)
    (newLeft newRight : QualifierSet) : Narrowing :=
  let leftWritten : Narrowing :=
    if newLeft = annotations.view constraint.left then { annotations }
    else Narrowing.write frozen { annotations } constraint.left newLeft
  if newRight = annotations.view constraint.right then leftWritten
  else leftWritten.write frozen constraint.right newRight

theorem carryOut_eq_revise (annotations : Annotations) (frozen : Leaf → Bool)
    (constraint : Constraint) (newLeft newRight : QualifierSet) :
    annotations.carryOut frozen constraint newLeft newRight =
      (Narrowing.revise frozen { annotations } constraint.left (annotations.view constraint.left)
        newLeft).revise frozen constraint.right (annotations.view constraint.right) newRight := rfl

theorem apply_of_narrow_none
    (narrowed : constraint.relation.narrow (annotations.view constraint.left)
      (annotations.view constraint.right) = none) :
    annotations.apply frozen constraint = .error .unspecified := by
  simp only [apply, narrowed]

theorem apply_of_exhausted
    (narrowed : constraint.relation.narrow (annotations.view constraint.left)
      (annotations.view constraint.right) = some (newLeft, newRight))
    (exhausted : newLeft = .empty ∨ newRight = .empty) :
    annotations.apply frozen constraint =
      .error (.unsatisfiable constraint (annotations.view constraint.left)
        (annotations.view constraint.right)) := by
  simp [apply, narrowed, QualifierSet.isEmpty, exhausted]

theorem apply_of_inhabited
    (narrowed : constraint.relation.narrow (annotations.view constraint.left)
      (annotations.view constraint.right) = some (newLeft, newRight))
    (leftInhabited : newLeft ≠ .empty) (rightInhabited : newRight ≠ .empty) :
    annotations.apply frozen constraint =
      .ok (annotations.carryOut frozen constraint newLeft newRight) := by
  simp [apply, carryOut, narrowed, QualifierSet.isEmpty, leftInhabited, rightInhabited]

theorem apply_eq_ok {narrowing : Narrowing}
    (applied : annotations.apply frozen constraint = .ok narrowing) :
    ∃ newLeft newRight,
      constraint.relation.narrow (annotations.view constraint.left)
        (annotations.view constraint.right) = some (newLeft, newRight) ∧
      newLeft ≠ .empty ∧ newRight ≠ .empty ∧
      narrowing = annotations.carryOut frozen constraint newLeft newRight := by
  cases narrowed : constraint.relation.narrow (annotations.view constraint.left)
      (annotations.view constraint.right) with
  | none =>
      rw [apply_of_narrow_none narrowed] at applied
      cases applied
  | some kept =>
      rcases kept with ⟨newLeft, newRight⟩
      by_cases exhausted : newLeft = .empty ∨ newRight = .empty
      · rw [apply_of_exhausted narrowed exhausted] at applied
        cases applied
      · rw [not_or] at exhausted
        rw [apply_of_inhabited narrowed exhausted.1 exhausted.2] at applied
        cases applied
        exact ⟨newLeft, newRight, rfl, exhausted.1, exhausted.2, rfl⟩

/-! ## Solutions -/

theorem carryOut_within (leftIncluded : constraint.left.leaves ⊆ leaves)
    (rightIncluded : constraint.right.leaves ⊆ leaves)
    (within : assignment.Within annotations leaves)
    (leftKept : assignment.eval constraint.left ∈ newLeft)
    (rightKept : assignment.eval constraint.right ∈ newRight) :
    assignment.Within (annotations.carryOut frozen constraint newLeft newRight).annotations
      leaves := by
  rw [carryOut_eq_revise]
  exact Narrowing.revise_within rightIncluded
    (Narrowing.revise_within leftIncluded within leftKept) rightKept

/-- A constraint that is satisfied within the annotations can be applied, and
the assignment stays within. -/
theorem apply_of_satisfies (specified : constraint.relation ≠ .unspecified)
    (leftIncluded : constraint.left.leaves ⊆ leaves)
    (rightIncluded : constraint.right.leaves ⊆ leaves)
    (within : assignment.Within annotations leaves) (satisfied : assignment.Satisfies constraint) :
    ∃ narrowing, annotations.apply frozen constraint = .ok narrowing ∧
      assignment.Within narrowing.annotations leaves := by
  have leftMember := Assignment.eval_mem_view (within.subset leftIncluded)
  have rightMember := Assignment.eval_mem_view (within.subset rightIncluded)
  rcases Relation.narrow_keeps specified leftMember rightMember satisfied with
    ⟨newLeft, newRight, narrowed, leftKept, rightKept⟩
  have leftInhabited := QualifierSet.ne_empty leftKept
  have rightInhabited := QualifierSet.ne_empty rightKept
  exact ⟨_, apply_of_inhabited narrowed leftInhabited rightInhabited,
    carryOut_within leftIncluded rightIncluded within leftKept rightKept⟩

end Annotations

end InfoFlow
