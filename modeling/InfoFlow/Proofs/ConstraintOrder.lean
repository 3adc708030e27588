import Mathlib.Data.String.Basic
import InfoFlow.Proofs.ConstraintSet
import InfoFlow.Proofs.StableSort.Enumeration
import InfoFlow.Proofs.WellFormed
import InfoFlow.Solver.State

/-! The order of constraints, and what sorting makes of a set of them.

Constraints are the same if their sides have the same numbers, but they are put
in order by the identifiers of their sides. The order is strict. It tells all
constraints of a graph apart exactly if different values of the graph have
different identifiers, and only then does a sorted set of constraints not depend
on the order in which its members came. Leaves have identifiers of their own.
The identifier of an adaptation, however, does not tell how it is nested. -/

namespace InfoFlow

theorem Relation.rank_injective {first second : Relation} (same : first.rank = second.rank) :
    first = second := by
  cases first <;> cases second <;> first | rfl | cases same

/-- What is observed through a context may be an adaptation itself, or the context
may be one. The identifier does not tell. -/
theorem Value.identifier_nested {outer inner upper lower : Adaptation}
    {owner one two three four : Nat} {declaration middle context : Value} :
    (adapted outer owner one (adapted inner owner two declaration middle) context).identifier =
      (adapted upper owner three declaration
        (adapted lower owner four middle context)).identifier := by
  simp [identifier, String.append_assoc]

namespace Constraint

variable {values : List Value} {members : List Constraint} {first second third : Constraint}

def ToldApart (first second : Constraint) : Prop :=
  first.precedes second ≠ second.precedes first

structure SetOver (values : List Value) (members : List Constraint) : Prop where
  between : ∀ member, member ∈ members → member.Between values
  distinct : (members.map key).Nodup

/-- Sorting gives the same list in whatever order the members come. -/
def SortDetermined (members : List Constraint) : Prop :=
  ∀ other : List Constraint, other.Perm members → Constraint.sort other = Constraint.sort members

theorem precedes_iff (numbered : Numbered values) (firstBetween : first.Between values)
    (secondBetween : second.Between values) :
    first.precedes second = true ↔
      first.relation.rank < second.relation.rank ∨
        first.relation = second.relation ∧
          (first.left.identifier < second.left.identifier ∨
            first.left = second.left ∧ first.right.identifier < second.right.identifier) := by
  rw [precedes]
  split
  · next sameRelation =>
      split
      · next same =>
          have sameLeft := numbered _ _ firstBetween.1 secondBetween.1 same
          simp [Value.precedes, sameRelation, sameLeft]
      · next different =>
          have apart : first.left ≠ second.left := by
            intro equal
            simp [equal] at different
          simp [Value.precedes, sameRelation, apart]
  · next otherRelation => simp [otherRelation]

theorem strictlyOrders (numbered : Numbered values)
    (between : ∀ member, member ∈ members → member.Between values) :
    StableSort.StrictlyOrders precedes members where
  irrefl := by
    intro member present
    simp [precedes, Value.precedes]
  trans := by
    intro first second third firstMember secondMember thirdMember lower upper
    have firstBetween := between first firstMember
    have secondBetween := between second secondMember
    have thirdBetween := between third thirdMember
    rw [precedes_iff numbered firstBetween secondBetween] at lower
    rw [precedes_iff numbered secondBetween thirdBetween] at upper
    rw [precedes_iff numbered firstBetween thirdBetween]
    rcases lower with lower | ⟨sameLower, lower⟩
    · rcases upper with upper | ⟨sameUpper, -⟩
      · exact .inl (lower.trans upper)
      · exact .inl (sameUpper ▸ lower)
    · rcases upper with upper | ⟨sameUpper, upper⟩
      · exact .inl (sameLower ▸ upper)
      · refine .inr ⟨sameLower.trans sameUpper, ?_⟩
        rcases lower with lower | ⟨leftLower, lower⟩ <;>
          rcases upper with upper | ⟨leftUpper, upper⟩
        · exact .inl (lower.trans upper)
        · exact .inl (leftUpper ▸ lower)
        · exact .inl (leftLower ▸ upper)
        · exact .inr ⟨leftLower.trans leftUpper, lower.trans upper⟩

theorem toldApart_iff (numbered : Numbered values) (firstBetween : first.Between values)
    (secondBetween : second.Between values) :
    first.ToldApart second ↔ first.precedes second = true ∨ second.precedes first = true := by
  have strict : StableSort.StrictlyOrders precedes [first, second] :=
    strictlyOrders numbered (by simp [firstBetween, secondBetween])
  have forwards : first.precedes second = true → second.precedes first = false :=
    strict.inOrder (by simp) (by simp)
  rw [ToldApart]
  cases before : first.precedes second with
  | true => simp [forwards before]
  | false => cases behind : second.precedes first <;> simp

/-- Whether sorting a set depends on the order of its members is a matter of which
members are told apart. -/
theorem sortDetermined_iff (numbered : Numbered values) (set : SetOver values members) :
    SortDetermined members ↔ ∀ first second, first ∈ members → second ∈ members →
      first ≠ second → first.ToldApart second := by
  refine (StableSort.sort_determined_iff_apart (strictlyOrders numbered set.between)).trans ?_
  refine forall₄_congr fun first second firstMember secondMember => ?_
  rw [toldApart_iff numbered (set.between first firstMember) (set.between second secondMember)]

end Constraint

namespace ValueGraph

variable {graph : ValueGraph}

def Distinguished (graph : ValueGraph) : Prop :=
  ∀ first, first ∈ graph.values → ∀ second, second ∈ graph.values →
    first.identifier = second.identifier → first = second

instance (graph : ValueGraph) : Decidable graph.Distinguished :=
  inferInstanceAs (Decidable (∀ first, first ∈ graph.values → ∀ second, second ∈ graph.values → _))

/-- The order tells the constraints of a graph apart. A sorted set of them, and so
the order in which they wait again after a write, depends on the set alone. -/
structure Sortable (graph : ValueGraph) : Prop where
  apart : ∀ first second : Constraint, first.Between graph.values →
    second.Between graph.values → first.key ≠ second.key → first.ToldApart second
  determined : ∀ members, Constraint.SetOver graph.values members →
    Constraint.SortDetermined members
  requeued : ∀ (solver : Solver) (leaf : Leaf) (other : List Constraint),
    Constraint.SetOver graph.values (solver.index.referencing (.leaf leaf)) →
      other.Perm (solver.index.referencing (.leaf leaf)) →
        (solver.requeue leaf).worklist = solver.worklist.addAll (Constraint.sort other)

theorem Distinguished.toldApart (distinguished : graph.Distinguished)
    (numbered : Numbered graph.values) {first second : Constraint}
    (firstBetween : first.Between graph.values) (secondBetween : second.Between graph.values)
    (different : first.key ≠ second.key) : first.ToldApart second := by
  rw [Constraint.toldApart_iff numbered firstBetween secondBetween,
    Constraint.precedes_iff numbered firstBetween secondBetween,
    Constraint.precedes_iff numbered secondBetween firstBetween]
  rcases lt_trichotomy first.relation.rank second.relation.rank with lower | equal | higher
  · exact .inl (.inl lower)
  · have sameRelation := Relation.rank_injective equal
    rcases lt_trichotomy first.left.identifier second.left.identifier with lower | equal | higher
    · exact .inl (.inr ⟨sameRelation, .inl lower⟩)
    · have sameLeft := distinguished _ firstBetween.1 _ secondBetween.1 equal
      rcases lt_trichotomy first.right.identifier second.right.identifier with
        lower | equal | higher
      · exact .inl (.inr ⟨sameRelation, .inr ⟨sameLeft, lower⟩⟩)
      · have sameRight := distinguished _ firstBetween.2 _ secondBetween.2 equal
        exact absurd (by simp [Constraint.key, sameRelation, sameLeft, sameRight]) different
      · exact .inr (.inr ⟨sameRelation.symm, .inr ⟨sameLeft.symm, higher⟩⟩)
    · exact .inr (.inr ⟨sameRelation.symm, .inl higher⟩)
  · exact .inr (.inl higher)

theorem not_toldApart {first second target : Value} (different : first.same second = false)
    (alike : first.identifier = second.identifier) :
    ¬ ({ relation := .subtype, left := first, right := target } : Constraint).ToldApart
      { relation := .subtype, left := second, right := target } := by
  have exchanged : second.same first = false := by
    simpa [Value.same, eq_comm] using different
  simp [Constraint.ToldApart, Constraint.precedes, different, exchanged, Value.precedes, alike]

theorem Distinguished.of_determined (numbered : Numbered graph.values)
    (determined : ∀ members, Constraint.SetOver graph.values members →
      Constraint.SortDetermined members) : graph.Distinguished := by
  intro first firstMember second secondMember alike
  by_contra apart
  have different : first.same second = false :=
    Bool.eq_false_iff.mpr fun same => apart (numbered first second firstMember secondMember same)
  let one : Constraint := { relation := .subtype, left := first, right := first }
  let other : Constraint := { relation := .subtype, left := second, right := first }
  have set : Constraint.SetOver graph.values [one, other] := by
    constructor
    · simp [one, other, Constraint.Between, firstMember, secondMember]
    · simpa [one, other, Constraint.key, Value.same] using different
  have toldApart := (Constraint.sortDetermined_iff numbered set).mp (determined _ set) one other
    (by simp) (by simp) fun equal => apart (congrArg Constraint.left equal)
  exact not_toldApart different alike toldApart

theorem not_sortable_of_nested (numbered : Numbered graph.values)
    {outer inner upper lower : Adaptation} {owner one two three four : Nat}
    {declaration middle context : Value}
    (inward : .adapted outer owner one (.adapted inner owner two declaration middle) context ∈
      graph.values)
    (outward : .adapted upper owner three declaration (.adapted lower owner four middle context) ∈
      graph.values) : ¬ graph.Sortable := by
  intro sortable
  have distinguished := Distinguished.of_determined numbered sortable.determined
  cases distinguished _ inward _ outward Value.identifier_nested

/-- The order of constraints is transitive in every graph. It tells the constraints
of a graph apart, and sorting a set of them does not depend on the order of its
members, exactly if different values have different identifiers. In any other graph
that is still true of those sets whose own members are told apart, and of no
others. -/
theorem sortable_iff_distinguished (graph : ValueGraph) (numbered : Numbered graph.values) :
    (graph.Sortable ↔ graph.Distinguished) ∧
      (∀ first second third : Constraint, first.Between graph.values →
        second.Between graph.values → third.Between graph.values →
          first.precedes second = true → second.precedes third = true →
            first.precedes third = true) ∧
      ∀ members, Constraint.SetOver graph.values members →
        (Constraint.SortDetermined members ↔ ∀ first second, first ∈ members → second ∈ members →
          first ≠ second → first.ToldApart second) := by
  refine ⟨⟨fun sortable => .of_determined numbered sortable.determined, ?_⟩, ?_, ?_⟩
  · intro distinguished
    have determined : ∀ members, Constraint.SetOver graph.values members →
        Constraint.SortDetermined members := by
      intro members set
      refine (Constraint.sortDetermined_iff numbered set).mpr ?_
      intro first second firstMember secondMember different
      refine distinguished.toldApart numbered (set.between first firstMember)
        (set.between second secondMember) fun sameKey => different ?_
      exact List.inj_on_of_nodup_map set.distinct firstMember secondMember sameKey
    refine ⟨fun first second => distinguished.toldApart numbered, determined, ?_⟩
    intro solver leaf other set perm
    rw [determined _ set other perm]
    rfl
  · intro first second third firstBetween secondBetween thirdBetween
    have strict : StableSort.StrictlyOrders Constraint.precedes [first, second, third] :=
      Constraint.strictlyOrders numbered (by simp [firstBetween, secondBetween, thirdBetween])
    exact strict.trans first second third (by simp) (by simp) (by simp)
  · exact fun members set => Constraint.sortDetermined_iff numbered set

def fieldOfField : ValueGraph :=
  let object := ({} : ValueGraph).intern { identifier := "o" }
  let field := object.1.intern { identifier := "f", kind := .field }
  let other := field.1.intern { identifier := "g", kind := .field }
  let content := other.1.adapt .field field.2 object.2
  (content.1.adapt .field other.2 content.2).1

theorem sortable_iff_distinguished_fieldOfField :
    Numbered fieldOfField.values ∧ fieldOfField.Distinguished ∧ fieldOfField.Sortable := by
  have numbered : Numbered fieldOfField.values := by decide
  have distinguished : fieldOfField.Distinguished := by decide
  exact ⟨numbered, distinguished,
    (sortable_iff_distinguished fieldOfField numbered).1.mpr distinguished⟩

/-- As `fieldOfField`, with the field of the field as a declaration of its own,
which is then observed through the object. -/
def fieldOfFieldTwice : ValueGraph :=
  let field := Value.leaf (LeafSpec.leaf { identifier := "f", kind := .field } 0 1)
  let other := Value.leaf (LeafSpec.leaf { identifier := "g", kind := .field } 0 2)
  let object := Value.leaf (LeafSpec.leaf { identifier := "o" } 0 0)
  let path := fieldOfField.adapt .field other field
  (path.1.adapt .field path.2 object).1

theorem fieldOfFieldTwice_built : fieldOfFieldTwice.Built := by
  refine .adapt (.adapt (.adapt (.adapt (.intern (.intern (.intern (.empty rfl rfl) _) _) _)
    .field ?_ ?_) .field ?_ ?_) .field ?_ ?_) .field ?_ ?_ <;> decide

/-- Neither of the two flows to the object precedes the other, so a sorted set of
them is in the order in which they came. -/
theorem fieldOfFieldTwice_not_sortable :
    let flow := fun number : Fin fieldOfFieldTwice.values.length =>
      ({ relation := .subtype, left := fieldOfFieldTwice.values.get number
         right := fieldOfFieldTwice.values.get ⟨0, by decide⟩ } : Constraint)
    let one := flow ⟨4, by decide⟩
    let other := flow ⟨6, by decide⟩
    fieldOfFieldTwice.Built ∧ Constraint.SetOver fieldOfFieldTwice.values [one, other] ∧
      one.precedes other = false ∧ other.precedes one = false ∧
      Constraint.sort [one, other] = [one, other] ∧ Constraint.sort [other, one] = [other, one] ∧
      ¬ fieldOfFieldTwice.Sortable := by
  intro flow one other
  have set : Constraint.SetOver fieldOfFieldTwice.values [one, other] :=
    ⟨by simp [Constraint.Between, one, other, flow], by decide⟩
  have kept : Constraint.sort [one, other] = [one, other] := by decide
  have exchanged : Constraint.sort [other, one] = [other, one] := by decide
  refine ⟨fieldOfFieldTwice_built, set, by decide, by decide, kept, exchanged, fun sortable => ?_⟩
  have same := sortable.determined [one, other] set [other, one] (.swap one other [])
  rw [kept, exchanged] at same
  revert same
  decide

end ValueGraph

end InfoFlow
