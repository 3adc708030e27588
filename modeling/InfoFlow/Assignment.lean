import InfoFlow.Constraint

/-! Assignments: one qualifier for each leaf.

An assignment gives a qualifier to every value, since an adaptation evaluates
to its declaration adapted by its context. A constraint is satisfied if its
relation holds between what its sides evaluate to. The main law says that
annotations which hold every leaf's qualifier also hold every value's. -/

namespace InfoFlow

/-- One qualifier for each leaf, by the leaf's place in the annotations. -/
abbrev Assignment := Nat × Nat → Qualifier

namespace Assignment

def eval (assignment : Assignment) : Value → Qualifier
  | .leaf content => assignment (Annotations.slot content)
  | .adapted _ _ _ declaration context =>
      (assignment.eval context).adapt (assignment.eval declaration)

/-- Whether a relation holds between two qualifiers. Nothing is said of an
unspecified one. -/
def Related : Relation → Qualifier → Qualifier → Prop
  | .unspecified, _, _ => True
  | .subtype, left, right => left.isSubtype right = true
  | .equality, left, right => left = right
  | .unequality, left, right => left ≠ right

instance (relation : Relation) (left right : Qualifier) :
    Decidable (Related relation left right) := by
  cases relation <;> unfold Related <;> infer_instance

/-- An assignment satisfies a constraint if the relation holds between its
sides. -/
def Satisfies (assignment : Assignment) (constraint : Constraint) : Prop :=
  Related constraint.relation (assignment.eval constraint.left)
    (assignment.eval constraint.right)

instance (assignment : Assignment) (constraint : Constraint) :
    Decidable (assignment.Satisfies constraint) :=
  inferInstanceAs (Decidable (Related _ _ _))

def Within (assignment : Assignment) (annotations : Annotations) (leaves : List Leaf) : Prop :=
  ∀ leaf, leaf ∈ leaves → assignment (Annotations.slot leaf) ∈ annotations.get leaf

instance (assignment : Assignment) (annotations : Annotations) (leaves : List Leaf) :
    Decidable (assignment.Within annotations leaves) :=
  inferInstanceAs (Decidable (∀ leaf, leaf ∈ leaves → _))

theorem eval_mem_view {assignment : Assignment} {annotations : Annotations} {value : Value}
    (within : assignment.Within annotations value.leaves) :
    assignment.eval value ∈ annotations.view value := by
  induction value with
  | leaf content => exact within content (by simp [Value.leaves])
  | adapted adaptation owner id declaration context onDeclaration onContext =>
      rw [Annotations.view, QualifierSet.mem_adapt]
      exact ⟨assignment.eval context,
        onContext fun leaf member => within leaf (by simp [Value.leaves, member]),
        assignment.eval declaration,
        onDeclaration fun leaf member => within leaf (by simp [Value.leaves, member]), rfl⟩

end Assignment

end InfoFlow
