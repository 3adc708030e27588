import InfoFlow.Proofs.Narrowing.Removal

/-! Applying a constraint looks at the leaves of its sides alone.

Annotations that agree on these leaves have the same outcome: the same failure,
or the same writes. -/

namespace InfoFlow

namespace Narrowing

structure Alike (leaves : List Leaf) (first second : Narrowing) : Prop where
  writes : first.writes = second.writes
  agree : ∀ leaf, leaf ∈ leaves → first.annotations.get leaf = second.annotations.get leaf

variable {frozen : Leaf → Bool} {leaves : List Leaf} {first second : Narrowing}

theorem Alike.view_eq (alike : Alike leaves first second) {value : Value}
    (included : value.leaves ⊆ leaves) :
    first.annotations.view value = second.annotations.view value :=
  Annotations.view_eq_of_leaves fun leaf below => alike.agree leaf (included below)

theorem Alike.assign (alike : Alike leaves first second) {leaf : Leaf} (member : leaf ∈ leaves)
    (qualifiers : QualifierSet) :
    Alike leaves (first.assign frozen leaf qualifiers) (second.assign frozen leaf qualifiers) := by
  rw [assign_eq, assign_eq, alike.agree leaf member]
  split
  · exact alike
  · constructor
    · simp only [alike.writes]
    · intro other otherMember
      by_cases samePlace : Annotations.slot other = Annotations.slot leaf
      · rw [Annotations.get_set_of_slot _ samePlace, Annotations.get_set_of_slot _ samePlace]
      · rw [Annotations.set_other _ samePlace, Annotations.set_other _ samePlace]
        exact alike.agree other otherMember

theorem Alike.write (alike : Alike leaves first second) {value : Value}
    (included : value.leaves ⊆ leaves) (allowed : QualifierSet) :
    Alike leaves (first.write frozen value allowed) (second.write frozen value allowed) := by
  induction value generalizing first second allowed with
  | leaf content => exact alike.assign (included (by simp [Value.leaves])) allowed
  | adapted adaptation owner id declaration context onDeclaration onContext =>
      have declarationIncluded : declaration.leaves ⊆ leaves :=
        fun leaf below => included (List.mem_append_right _ below)
      have contextIncluded : context.leaves ⊆ leaves :=
        fun leaf below => included (List.mem_append_left _ below)
      simp only [Narrowing.write, alike.view_eq declarationIncluded, alike.view_eq contextIncluded]
      split <;> split
      · exact alike
      · exact onDeclaration alike declarationIncluded _
      · exact onContext alike contextIncluded _
      · exact onContext (onDeclaration alike declarationIncluded _) contextIncluded _

end Narrowing

namespace Annotations

variable {before after : Annotations} {frozen : Leaf → Bool} {leaves : List Leaf}
  {constraint : Constraint}

theorem apply_alike_of_agree (leftIncluded : constraint.left.leaves ⊆ leaves)
    (rightIncluded : constraint.right.leaves ⊆ leaves)
    (agree : ∀ leaf, leaf ∈ leaves → before.get leaf = after.get leaf) {narrowing : Narrowing}
    (applied : before.apply frozen constraint = .ok narrowing) :
    ∃ other, after.apply frozen constraint = .ok other ∧
      Narrowing.Alike leaves narrowing other := by
  have start : Narrowing.Alike leaves { annotations := before } { annotations := after } :=
    ⟨rfl, agree⟩
  rcases apply_eq_ok applied with
    ⟨newLeft, newRight, narrowed, leftInhabited, rightInhabited, carriedOut⟩
  have leftView : before.view constraint.left = after.view constraint.left :=
    start.view_eq leftIncluded
  have rightView : before.view constraint.right = after.view constraint.right :=
    start.view_eq rightIncluded
  rw [leftView, rightView] at narrowed
  refine ⟨_, apply_of_inhabited narrowed leftInhabited rightInhabited, ?_⟩
  rw [carriedOut]
  simp only [carryOut, leftView, rightView]
  split <;> split
  · exact start
  · exact start.write leftIncluded _
  · exact start.write rightIncluded _
  · exact (start.write leftIncluded _).write rightIncluded _

theorem apply_error_of_agree (leftIncluded : constraint.left.leaves ⊆ leaves)
    (rightIncluded : constraint.right.leaves ⊆ leaves)
    (agree : ∀ leaf, leaf ∈ leaves → before.get leaf = after.get leaf) {failure : Failure}
    (failed : before.apply frozen constraint = .error failure) :
    after.apply frozen constraint = .error failure := by
  have leftView := view_eq_of_leaves fun leaf below => agree leaf (leftIncluded below)
  have rightView := view_eq_of_leaves fun leaf below => agree leaf (rightIncluded below)
  cases narrowed : constraint.relation.narrow (before.view constraint.left)
      (before.view constraint.right) with
  | none =>
      rw [← failed, apply_of_narrow_none narrowed]
      rw [leftView, rightView] at narrowed
      exact apply_of_narrow_none narrowed
  | some kept =>
      rcases kept with ⟨newLeft, newRight⟩
      by_cases exhausted : newLeft = .empty ∨ newRight = .empty
      · rw [← failed, apply_of_exhausted narrowed exhausted, leftView, rightView]
        rw [leftView, rightView] at narrowed
        exact apply_of_exhausted narrowed exhausted
      · rw [not_or] at exhausted
        rw [apply_of_inhabited narrowed exhausted.1 exhausted.2] at failed
        cases failed

/-! ## Failure and stability -/

/-- The qualifiers of its sides do not satisfy a constraint. -/
def Fails (annotations : Annotations) (constraint : Constraint) : Prop :=
  ∃ left right, annotations.apply Leaf.isImmutable constraint =
    .error (.unsatisfiable constraint left right)

/-- A constraint can be applied without any change. -/
def Stable (annotations : Annotations) (constraint : Constraint) : Prop :=
  annotations.apply Leaf.isImmutable constraint = .ok { annotations }

theorem Fails.not_stable (fails : before.Fails constraint) : ¬ before.Stable constraint := by
  intro stable
  rcases fails with ⟨left, right, failed⟩
  rw [Stable, failed] at stable
  cases stable

theorem fails_of_error {failure : Failure} (specified : constraint.relation ≠ .unspecified)
    (failed : before.apply Leaf.isImmutable constraint = .error failure) :
    before.Fails constraint := by
  rcases Relation.narrow_of_specified specified (before.view constraint.left)
    (before.view constraint.right) with ⟨newLeft, newRight, narrowed⟩
  by_cases exhausted : newLeft = .empty ∨ newRight = .empty
  · exact ⟨_, _, apply_of_exhausted narrowed exhausted⟩
  · rw [not_or] at exhausted
    rw [apply_of_inhabited narrowed exhausted.1 exhausted.2] at failed
    cases failed

theorem stable_of_unwritten {narrowing : Narrowing} (separate : SeparatePlaces leaves)
    (leftIncluded : constraint.left.leaves ⊆ leaves)
    (rightIncluded : constraint.right.leaves ⊆ leaves)
    (applied : before.apply Leaf.isImmutable constraint = .ok narrowing)
    (unwritten : narrowing.writes = []) : before.Stable constraint := by
  have reached := apply_from separate leftIncluded rightIncluded applied
  rw [Stable, applied]
  cases reached with
  | unwritten => rfl
  | written => simp at unwritten

theorem Fails.of_agree (fails : before.Fails constraint)
    (leftIncluded : constraint.left.leaves ⊆ leaves)
    (rightIncluded : constraint.right.leaves ⊆ leaves)
    (agree : ∀ leaf, leaf ∈ leaves → before.get leaf = after.get leaf) :
    after.Fails constraint := by
  rcases fails with ⟨left, right, failed⟩
  exact ⟨left, right, apply_error_of_agree leftIncluded rightIncluded agree failed⟩

theorem Stable.of_agree (stable : before.Stable constraint) (separate : SeparatePlaces leaves)
    (leftIncluded : constraint.left.leaves ⊆ leaves)
    (rightIncluded : constraint.right.leaves ⊆ leaves)
    (agree : ∀ leaf, leaf ∈ leaves → before.get leaf = after.get leaf) :
    after.Stable constraint := by
  rcases apply_alike_of_agree leftIncluded rightIncluded agree stable with
    ⟨narrowing, applied, alike⟩
  exact stable_of_unwritten separate leftIncluded rightIncluded applied alike.writes.symm

end Annotations

end InfoFlow
