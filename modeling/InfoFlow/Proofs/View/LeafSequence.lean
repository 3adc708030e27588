import InfoFlow.Proofs.View

/-! The qualifiers of a value in closed form.

Adapting sets is associative, and a set that is poly alone changes nothing on
either side. So the qualifiers of a value are those of its leaves, adapted one
after the other, however the value is nested. A leaf shows through if all leaves
after it may be polymorphic, and a value may be polymorphic only if all its leaves
may be. -/

namespace InfoFlow

namespace QualifierSet

variable {contexts declared : QualifierSet} {qualifier : Qualifier}

theorem adapt_assoc (outer contexts declared : QualifierSet) :
    outer.adapt (contexts.adapt declared) = (outer.adapt contexts).adapt declared := by
  apply ext
  intro qualifier
  simp only [mem_adapt]
  constructor
  · rintro ⟨first, firstMember, _, ⟨second, secondMember, third, thirdMember, rfl⟩, rfl⟩
    exact ⟨first.adapt second, ⟨first, firstMember, second, secondMember, rfl⟩,
      third, thirdMember, (Qualifier.adapt_adapt first second third).symm⟩
  · rintro ⟨_, ⟨first, firstMember, second, secondMember, rfl⟩, third, thirdMember, rfl⟩
    exact ⟨first, firstMember, second.adapt third,
      ⟨second, secondMember, third, thirdMember, rfl⟩, Qualifier.adapt_adapt first second third⟩

@[simp] theorem only_poly_adapt (declared : QualifierSet) :
    (only .poly).adapt declared = declared := by
  apply ext
  intro qualifier
  simp [Qualifier.poly_adapt]

@[simp] theorem adapt_only_poly (contexts : QualifierSet) :
    contexts.adapt (only .poly) = contexts := by
  apply ext
  intro qualifier
  simp [Qualifier.adapt_poly]

theorem mem_adapt_of_ne_poly (fixed : qualifier ≠ .poly) (inhabited : contexts ≠ empty) :
    qualifier ∈ contexts.adapt declared ↔
      qualifier ∈ contexts ∧ .poly ∈ declared ∨ qualifier ∈ declared := by
  rw [mem_adapt]
  constructor
  · rintro ⟨context, contextMember, declaration, declaredMember, rfl⟩
    by_cases polymorphic : declaration = .poly
    · subst polymorphic
      exact .inl ⟨contextMember, declaredMember⟩
    · rw [Qualifier.adapt_of_ne_poly polymorphic]
      exact .inr declaredMember
  · rintro (⟨contextMember, declaredPoly⟩ | declaredMember)
    · exact ⟨qualifier, contextMember, .poly, declaredPoly, Qualifier.adapt_poly qualifier⟩
    · rcases exists_mem inhabited with ⟨context, contextMember⟩
      exact ⟨context, contextMember, qualifier, declaredMember,
        Qualifier.adapt_of_ne_poly fixed context⟩

end QualifierSet

namespace Annotations

variable {annotations : Annotations} {value : Value} {leaves : List Leaf}
  {qualifier : Qualifier}

/-- What some leaves carry, each adapted by those before it. -/
def viewAlong (annotations : Annotations) : List Leaf → QualifierSet
  | [] => .only .poly
  | leaf :: rest => (annotations.get leaf).adapt (annotations.viewAlong rest)

theorem viewAlong_append (annotations : Annotations) (before after : List Leaf) :
    annotations.viewAlong (before ++ after) =
      (annotations.viewAlong before).adapt (annotations.viewAlong after) := by
  induction before with
  | nil => simp [viewAlong]
  | cons leaf rest induction =>
      rw [List.cons_append, viewAlong, viewAlong, induction, QualifierSet.adapt_assoc]

/-- The nesting of a value does not matter. -/
theorem view_eq_viewAlong (annotations : Annotations) (value : Value) :
    annotations.view value = annotations.viewAlong value.leaves := by
  induction value with
  | leaf content => simp [view, Value.leaves, viewAlong]
  | adapted adaptation owner id declaration context onDeclaration onContext =>
      rw [view, Value.leaves, viewAlong_append, onDeclaration, onContext]

theorem poly_mem_viewAlong :
    .poly ∈ annotations.viewAlong leaves ↔
      ∀ leaf, leaf ∈ leaves → .poly ∈ annotations.get leaf := by
  induction leaves with
  | nil => simp [viewAlong]
  | cons leaf rest induction =>
      rw [viewAlong, QualifierSet.poly_mem_adapt, induction, List.forall_mem_cons]

/-- A leaf among some leaves may carry a qualifier, and all leaves after it may be
polymorphic. -/
def ShowsThrough (annotations : Annotations) (leaves : List Leaf) (qualifier : Qualifier) :
    Prop :=
  ∃ before leaf after, leaves = before ++ leaf :: after ∧ qualifier ∈ annotations.get leaf ∧
    ∀ later, later ∈ after → .poly ∈ annotations.get later

theorem showsThrough_cons {leaf : Leaf} {rest : List Leaf} :
    annotations.ShowsThrough (leaf :: rest) qualifier ↔
      (qualifier ∈ annotations.get leaf ∧ .poly ∈ annotations.viewAlong rest) ∨
        annotations.ShowsThrough rest qualifier := by
  rw [poly_mem_viewAlong]
  constructor
  · rintro ⟨before, shown, after, split, member, later⟩
    cases before with
    | nil =>
        cases split
        exact .inl ⟨member, later⟩
    | cons first before =>
        cases split
        exact .inr ⟨before, shown, after, rfl, member, later⟩
  · rintro (⟨member, later⟩ | ⟨before, shown, after, rfl, member, later⟩)
    · exact ⟨[], leaf, rest, rfl, member, later⟩
    · exact ⟨leaf :: before, shown, after, rfl, member, later⟩

/-- A qualifier other than poly has to show through from some leaf. -/
theorem mem_viewAlong_of_ne_poly (fixed : qualifier ≠ .poly)
    (inhabited : ∀ leaf, leaf ∈ leaves → annotations.get leaf ≠ .empty) :
    qualifier ∈ annotations.viewAlong leaves ↔ annotations.ShowsThrough leaves qualifier := by
  induction leaves with
  | nil => simp [viewAlong, ShowsThrough, fixed]
  | cons leaf rest induction =>
      rw [List.forall_mem_cons] at inhabited
      rw [viewAlong, QualifierSet.mem_adapt_of_ne_poly fixed inhabited.1,
        induction inhabited.2, showsThrough_cons]

theorem exists_leaf_of_mem_view (member : qualifier ∈ annotations.view value) :
    ∃ leaf, leaf ∈ value.leaves ∧ qualifier ∈ annotations.get leaf := by
  induction value generalizing qualifier with
  | leaf content => exact ⟨content, by simp [Value.leaves], member⟩
  | adapted adaptation owner id declaration context onDeclaration onContext =>
      rw [view, QualifierSet.mem_adapt] at member
      rcases member with ⟨outer, outerMember, declared, declaredMember, rfl⟩
      by_cases polymorphic : declared = .poly
      · rcases onContext outerMember with ⟨leaf, below, leafMember⟩
        rw [polymorphic, Qualifier.adapt_poly]
        exact ⟨leaf, List.mem_append_left _ below, leafMember⟩
      · rcases onDeclaration declaredMember with ⟨leaf, below, leafMember⟩
        rw [Qualifier.adapt_of_ne_poly polymorphic]
        exact ⟨leaf, List.mem_append_right _ below, leafMember⟩

/-- Of a value of any nesting: it may be polymorphic exactly if all its leaves may
be, and it may carry another qualifier exactly if the qualifier shows through from
one of them. So values with the same leaves, in the same order, carry the same, and
a value that may be polymorphic carries all that its leaves carry. -/
theorem view_closed_form (annotations : Annotations) (value : Value)
    (inhabited : ∀ leaf, leaf ∈ value.leaves → annotations.get leaf ≠ .empty) :
    (.poly ∈ annotations.view value ↔
        ∀ leaf, leaf ∈ value.leaves → .poly ∈ annotations.get leaf) ∧
      (∀ qualifier, qualifier ≠ .poly → (qualifier ∈ annotations.view value ↔
        annotations.ShowsThrough value.leaves qualifier)) ∧
      (∀ other : Value, other.leaves = value.leaves →
        annotations.view other = annotations.view value) ∧
      (.poly ∈ annotations.view value → ∀ qualifier, qualifier ∈ annotations.view value ↔
        ∃ leaf, leaf ∈ value.leaves ∧ qualifier ∈ annotations.get leaf) := by
  refine ⟨?_, ?_, ?_, ?_⟩
  · rw [view_eq_viewAlong]
    exact poly_mem_viewAlong
  · intro qualifier fixed
    rw [view_eq_viewAlong]
    exact mem_viewAlong_of_ne_poly fixed inhabited
  · intro other sameLeaves
    rw [view_eq_viewAlong, view_eq_viewAlong, sameLeaves]
  · intro polymorphic qualifier
    constructor
    · exact exists_leaf_of_mem_view
    · rintro ⟨leaf, below, member⟩
      exact mem_view_of_poly polymorphic below member

/-- A field that may be sensitive or polymorphic, of a field that is polymorphic, of
an object that may be clear. What the object carries shows through both fields, and
the other nesting carries the same. -/
theorem view_closed_form_fieldOfField :
    let object := LeafSpec.leaf { identifier := "o", declared := .ofList [.clear] } 0 0
    let field := LeafSpec.leaf { identifier := "f", declared := .ofList [.poly] } 0 1
    let other := LeafSpec.leaf { identifier := "g", declared := .ofList [.sensitive, .poly] } 0 2
    let inward : Value := .adapted .field 0 4 (.leaf other)
      (.adapted .field 0 3 (.leaf field) (.leaf object))
    let outward : Value := .adapted .field 0 6 (.adapted .field 0 5 (.leaf other) (.leaf field))
      (.leaf object)
    let annotations : Annotations := {}
    (∀ leaf, leaf ∈ inward.leaves → annotations.get leaf ≠ .empty) ∧
      .poly ∉ annotations.view inward ∧ .clear ∈ annotations.view inward ∧
      annotations.view outward = annotations.view inward := by
  intro object field other inward outward annotations
  have inhabited : ∀ leaf, leaf ∈ inward.leaves → annotations.get leaf ≠ .empty := by decide
  have form := view_closed_form annotations inward inhabited
  have hidden : .poly ∉ annotations.get object := by decide
  refine ⟨inhabited, fun polymorphic => hidden (form.1.mp polymorphic object ?_), ?_, ?_⟩
  · exact List.mem_cons_self
  · refine (form.2.1 .clear (by decide)).mpr ⟨[], object, [field, other], rfl, by decide, ?_⟩
    decide
  · exact form.2.2.1 outward rfl

end Annotations

end InfoFlow
