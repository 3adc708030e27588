import InfoFlow.Proofs.Narrowing.Solution

/-! Narrowing only removes qualifiers.

The writes of a narrowing form a chain: each takes qualifiers from a leaf that
is not frozen. This is plain where a side is looked at just before it is
written. A context, and the right side of a constraint, may however share
leaves with what was written before them. Then the earlier write has left
possible all that the later one allows. -/

namespace InfoFlow

namespace QualifierSet

@[simp] theorem subset_refl (qualifiers : QualifierSet) : qualifiers ⊆ qualifiers :=
  fun _ member => member

theorem subset_trans {first second third : QualifierSet} (lower : first ⊆ second)
    (upper : second ⊆ third) : first ⊆ third :=
  fun qualifier member => upper qualifier (lower qualifier member)

theorem filter_subset (qualifiers : QualifierSet) (keep : Qualifier → Bool) :
    qualifiers.filter keep ⊆ qualifiers :=
  fun _ member => (mem_filter.mp member).1

end QualifierSet

namespace Relation

theorem narrow_subset {relation : Relation} {left right newLeft newRight : QualifierSet}
    (narrowed : relation.narrow left right = some (newLeft, newRight)) :
    newLeft ⊆ left ∧ newRight ⊆ right := by
  cases relation with
  | unspecified => cases narrowed
  | subtype =>
      cases narrowed
      exact ⟨QualifierSet.filter_subset _ _, QualifierSet.filter_subset _ _⟩
  | equality =>
      cases narrowed
      exact ⟨QualifierSet.filter_subset _ _, fun _ member => (QualifierSet.mem_inter.mp member).2⟩
  | unequality =>
      cases narrowed
      constructor
      · split
        · exact QualifierSet.filter_subset _ _
        · exact QualifierSet.subset_refl _
      · split
        · exact QualifierSet.filter_subset _ _
        · exact QualifierSet.subset_refl _

theorem narrow_both {relation : Relation} {left right newLeft newRight : QualifierSet}
    (narrowed : relation.narrow left right = some (newLeft, newRight))
    (leftInhabited : newLeft ≠ .empty) (rightInhabited : newRight ≠ .empty)
    (leftChanged : newLeft ≠ left) (rightChanged : newRight ≠ right) : newLeft = newRight := by
  cases relation with
  | unspecified => cases narrowed
  | subtype | equality | unequality =>
      cases narrowed
      revert leftInhabited rightInhabited leftChanged rightChanged
      rcases left with ⟨_ | _, _ | _, _ | _⟩ <;> rcases right with ⟨_ | _, _ | _, _ | _⟩ <;> decide

end Relation

namespace Narrowing

/-- Narrowings that some writes make of the given annotations, each of which
takes qualifiers from a leaf that is not frozen. -/
inductive From (frozen : Leaf → Bool) (leaves : List Leaf) (start : Annotations) :
    Narrowing → Prop
  | unwritten : From frozen leaves start { annotations := start }
  | written {narrowing : Narrowing} {leaf : Leaf} {after : QualifierSet}
      (earlier : From frozen leaves start narrowing) (member : leaf ∈ leaves)
      (mutable : frozen leaf = false) (smaller : after ⊆ narrowing.annotations.get leaf)
      (different : narrowing.annotations.get leaf ≠ after) :
      From frozen leaves start
        { annotations := narrowing.annotations.set leaf after
          writes := narrowing.writes ++ [⟨leaf, narrowing.annotations.get leaf, after⟩] }

variable {frozen : Leaf → Bool} {leaves : List Leaf} {start : Annotations}
  {narrowing : Narrowing}

theorem From.assign (reached : From frozen leaves start narrowing) {leaf : Leaf}
    {allowed : QualifierSet} (member : leaf ∈ leaves)
    (smaller : allowed ⊆ narrowing.annotations.get leaf) :
    From frozen leaves start (narrowing.assign frozen leaf allowed) := by
  rw [assign_eq]
  split
  · exact reached
  · next writable =>
      rw [not_or, Bool.not_eq_true] at writable
      exact .written reached member writable.2 smaller writable.1

theorem From.revise {value : Value} {seen kept : QualifierSet}
    (reached : From frozen leaves start narrowing)
    (written : kept ≠ seen → From frozen leaves start (narrowing.write frozen value kept)) :
    From frozen leaves start (narrowing.revise frozen value seen kept) := by
  rw [Narrowing.revise]
  split
  · exact reached
  · next changed => exact written changed

theorem From.get_other (reached : From frozen leaves start narrowing)
    {leaf : Leaf} (other : ∀ written, written ∈ leaves →
      Annotations.slot leaf ≠ Annotations.slot written) :
    narrowing.annotations.get leaf = start.get leaf := by
  induction reached with
  | unwritten => rfl
  | written earlier member mutable smaller different induction =>
      rw [Annotations.set_other _ (other _ member)]
      exact induction

theorem From.mem_of_write (reached : From frozen leaves start narrowing)
    {write : Write} (made : write ∈ narrowing.writes) : write.leaf ∈ leaves := by
  induction reached with
  | unwritten => cases made
  | written earlier member mutable smaller different induction =>
      rcases List.mem_append.mp made with before | last
      · exact induction before
      · rw [List.mem_singleton.mp last]
        exact member

private theorem keptContexts_eq_of_fixed {contexts declared allowed : QualifierSet}
    {qualifier : Qualifier}
    (kept : qualifier ∈ keptDeclared contexts declared allowed) (fixed : qualifier ≠ .poly) :
    keptContexts contexts (keptDeclared contexts declared allowed) allowed = contexts := by
  rcases mem_keptDeclared.mp kept with ⟨-, context, -, permitted⟩
  rw [Qualifier.adapt_of_ne_poly fixed] at permitted
  refine QualifierSet.ext fun other => ⟨fun member => (mem_keptContexts.mp member).1,
    fun member => mem_keptContexts.mpr ⟨member, qualifier, kept, ?_⟩⟩
  rw [Qualifier.adapt_of_ne_poly fixed]
  exact permitted

theorem keptContexts_possible {declaration context : Value} {allowed : QualifierSet}
    (separate : SeparatePlaces leaves) (declarationIncluded : declaration.leaves ⊆ leaves)
    (contextIncluded : context.leaves ⊆ leaves)
    (changed : keptContexts (narrowing.annotations.view context)
        (keptDeclared (narrowing.annotations.view context)
          (narrowing.annotations.view declaration) allowed) allowed ≠
      narrowing.annotations.view context) :
    keptContexts (narrowing.annotations.view context)
        (keptDeclared (narrowing.annotations.view context)
          (narrowing.annotations.view declaration) allowed) allowed ⊆
      (narrowing.revise frozen declaration (narrowing.annotations.view declaration)
        (keptDeclared (narrowing.annotations.view context)
          (narrowing.annotations.view declaration) allowed)).annotations.view context := by
  intro qualifier kept
  rcases mem_keptContexts.mp kept with ⟨present, declared, declaredKept, permitted⟩
  have polymorphic : declared = .poly := by
    by_contra fixed
    exact changed (keptContexts_eq_of_fixed declaredKept fixed)
  rw [polymorphic, Qualifier.adapt_poly] at permitted
  have declaredPoly := (mem_keptDeclared.mp (polymorphic ▸ declaredKept)).1
  have contextBelow : context.leaves ⊆ context.leaves ++ declaration.leaves :=
    List.subset_append_left _ _
  have declarationBelow : declaration.leaves ⊆ context.leaves ++ declaration.leaves :=
    List.subset_append_right _ _
  have places : SeparatePlaces (context.leaves ++ declaration.leaves) :=
    separate.subset (List.append_subset.mpr ⟨contextIncluded, declarationIncluded⟩)
  let assignment := Assignment.preferring narrowing.annotations
    (context.leaves ++ declaration.leaves) qualifier
  have within : assignment.Within narrowing.annotations (context.leaves ++ declaration.leaves) :=
    Assignment.preferring_within_both places present declaredPoly qualifier
  have outer : assignment.eval context = qualifier :=
    Assignment.eval_preferring places contextBelow present
  have evaluated : (assignment.eval context).adapt (assignment.eval declaration) ∈ allowed := by
    rw [outer]
    rcases Assignment.eval_preferring_of_poly places declarationBelow declaredPoly with
      inner | inner <;> rw [inner]
    · exact (Qualifier.adapt_self qualifier).symm ▸ permitted
    · exact permitted
  have declarationKept := (eval_kept declarationBelow contextBelow within evaluated).1
  rw [← outer]
  exact Assignment.eval_mem_view
    ((revise_within declarationBelow within declarationKept).subset contextBelow)

theorem From.write {value : Value} {allowed : QualifierSet} (separate : SeparatePlaces leaves)
    (included : value.leaves ⊆ leaves) (reached : From frozen leaves start narrowing)
    (fits : ∀ leaf, value = .leaf leaf → allowed ⊆ narrowing.annotations.get leaf) :
    From frozen leaves start (narrowing.write frozen value allowed) := by
  induction value generalizing narrowing allowed with
  | leaf content =>
      exact reached.assign (included (by simp [Value.leaves])) (fits content rfl)
  | adapted adaptation owner id declaration context onDeclaration onContext =>
      have declarationIncluded : declaration.leaves ⊆ leaves :=
        fun leaf below => included (List.mem_append_right _ below)
      have contextIncluded : context.leaves ⊆ leaves :=
        fun leaf below => included (List.mem_append_left _ below)
      have afterDeclaration : From frozen leaves start
          (narrowing.revise frozen declaration (narrowing.annotations.view declaration)
            (keptDeclared (narrowing.annotations.view context)
              (narrowing.annotations.view declaration) allowed)) := by
        refine reached.revise fun _ => onDeclaration declarationIncluded reached ?_
        rintro leaf rfl
        exact QualifierSet.filter_subset _ _
      rw [write_adapted]
      refine afterDeclaration.revise fun changed => onContext contextIncluded afterDeclaration ?_
      rintro leaf rfl
      exact keptContexts_possible separate declarationIncluded contextIncluded changed

end Narrowing

namespace Annotations

variable {annotations : Annotations} {frozen : Leaf → Bool} {leaves : List Leaf}
  {constraint : Constraint} {narrowing : Narrowing}

/-- What the right side of a constraint may keep it can still carry when the left
side has been revised, unless it keeps everything. -/
theorem newRight_possible (frozen : Leaf → Bool) {newLeft newRight : QualifierSet}
    (separate : SeparatePlaces leaves)
    (leftIncluded : constraint.left.leaves ⊆ leaves)
    (rightIncluded : constraint.right.leaves ⊆ leaves)
    (narrowed : constraint.relation.narrow (annotations.view constraint.left)
      (annotations.view constraint.right) = some (newLeft, newRight))
    (leftInhabited : newLeft ≠ .empty) (rightInhabited : newRight ≠ .empty)
    (changed : newRight ≠ annotations.view constraint.right) :
    newRight ⊆ (Narrowing.revise frozen { annotations } constraint.left
      (annotations.view constraint.left) newLeft).annotations.view constraint.right := by
  have smaller := Relation.narrow_subset narrowed
  by_cases leftSame : newLeft = annotations.view constraint.left
  · rw [Narrowing.revise, if_pos leftSame]
    exact smaller.2
  · have same := Relation.narrow_both narrowed leftInhabited rightInhabited leftSame changed
    intro qualifier kept
    have possible := smaller.2 qualifier kept
    have leftPossible := smaller.1 qualifier (same ▸ kept)
    have places : SeparatePlaces (constraint.left.leaves ++ constraint.right.leaves) :=
      separate.subset (List.append_subset.mpr ⟨leftIncluded, rightIncluded⟩)
    let assignment := Assignment.preferring annotations
      (constraint.left.leaves ++ constraint.right.leaves) qualifier
    have within : assignment.Within annotations
        (constraint.left.leaves ++ constraint.right.leaves) :=
      Assignment.preferring_within_both places leftPossible possible qualifier
    have onLeft : assignment.eval constraint.left ∈ newLeft := by
      rw [Assignment.eval_preferring places constraint.left_below leftPossible, same]
      exact kept
    have onRight : assignment.eval constraint.right = qualifier :=
      Assignment.eval_preferring places constraint.right_below possible
    rw [← onRight]
    exact Assignment.eval_mem_view
      ((Narrowing.revise_within constraint.left_below within onLeft).subset constraint.right_below)

theorem apply_from (separate : SeparatePlaces leaves)
    (leftIncluded : constraint.left.leaves ⊆ leaves)
    (rightIncluded : constraint.right.leaves ⊆ leaves)
    (applied : annotations.apply frozen constraint = .ok narrowing) :
    Narrowing.From frozen leaves annotations narrowing := by
  rcases apply_eq_ok applied with
    ⟨newLeft, newRight, narrowed, leftInhabited, rightInhabited, carriedOut⟩
  have started : Narrowing.From frozen leaves annotations { annotations } := .unwritten
  have afterLeft : Narrowing.From frozen leaves annotations
      (Narrowing.revise frozen { annotations } constraint.left (annotations.view constraint.left)
        newLeft) := by
    refine started.revise fun _ => started.write separate leftIncluded ?_
    intro leaf equal
    have fits := (Relation.narrow_subset narrowed).1
    rwa [equal] at fits
  rw [carriedOut, carryOut_eq_revise]
  refine afterLeft.revise fun changed => afterLeft.write separate rightIncluded ?_
  intro leaf equal
  have fits := newRight_possible frozen separate leftIncluded rightIncluded narrowed
    leftInhabited rightInhabited changed
  rwa [equal] at fits

end Annotations

end InfoFlow
